/-
# Sets of variables in the order of their first appearance

A `VariableSet` is a list of different variables.  Its order is part of the value: it decides the
columns of a truth table and the order in which valuations are counted.

* `toList_insert`: a new element goes to the end, and a present one changes nothing.
-/
import Sentential.Variable

namespace Sentential

/-- Different variables in the order of their first appearance. -/
@[ext] structure VariableSet where
  toList : List Variable
  nodup : toList.Nodup
deriving DecidableEq

namespace VariableSet

/-- The set without elements. -/
def empty : VariableSet := ⟨[], List.nodup_nil⟩

instance : EmptyCollection VariableSet := ⟨empty⟩

instance : Membership Variable VariableSet where
  mem V a := a ∈ V.toList

instance (a : Variable) (V : VariableSet) : Decidable (a ∈ V) :=
  inferInstanceAs (Decidable (a ∈ V.toList))

/-- The number of elements. -/
def size (V : VariableSet) : Nat := V.toList.length

/-- Whether the set has no elements. -/
def isEmpty (V : VariableSet) : Bool := V.toList.isEmpty

/-- Whether `a` is an element. -/
def contains (V : VariableSet) (a : Variable) : Bool := decide (a ∈ V)

/-- The set with `a` at its end, unless `a` is an element already. -/
def insert (V : VariableSet) (a : Variable) : VariableSet :=
  if h : a ∈ V.toList then V
  else
    ⟨V.toList ++ [a], by
      refine List.nodup_append.mpr ⟨V.nodup, List.pairwise_singleton _ _, ?_⟩
      rintro b hb c hc rfl
      exact h (List.mem_singleton.mp hc ▸ hb)⟩

/-- The set with the elements of a list inserted one after another. -/
def insertAll (V : VariableSet) (as : List Variable) : VariableSet :=
  as.foldl insert V

/-- The elements of a list in the order of their first appearance. -/
def ofList (as : List Variable) : VariableSet :=
  empty.insertAll as

/-- The elements of `V`, then those of `W` that `V` lacks. -/
def union (V W : VariableSet) : VariableSet :=
  V.insertAll W.toList

instance : Union VariableSet := ⟨union⟩

/-- The elements in braces. -/
def text (V : VariableSet) : String :=
  "\x7b" ++ ", ".intercalate (V.toList.map (fun a => a.name.toString)) ++ "\x7d"

instance : ToString VariableSet := ⟨text⟩

@[simp] theorem toList_empty : (∅ : VariableSet).toList = [] := rfl

theorem toList_insert (V : VariableSet) (a : Variable) :
    (V.insert a).toList = if a ∈ V.toList then V.toList else V.toList ++ [a] := by
  unfold insert
  split <;> simp [*]

end VariableSet
end Sentential
