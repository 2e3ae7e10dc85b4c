/-
# Maps from variables in the order of insertion

A `VariableMap` keeps its entries in the order in which their variables were first inserted;
inserting a variable again replaces its value and keeps its place.  A valuation of the variables
and the English meaning of the variables are both such maps.

* `get?_insert`: what a map gives after an insertion.
-/
import Sentential.Variable.Set

namespace Sentential

/-- A finite map from variables, in the order of insertion. -/
@[ext] structure VariableMap (α : Type) where
  entries : List (Variable × α)
  nodup : (entries.map Prod.fst).Nodup

namespace VariableMap

variable {α : Type}

/-- The map without entries. -/
def empty : VariableMap α := ⟨[], List.nodup_nil⟩

instance : EmptyCollection (VariableMap α) := ⟨empty⟩

/-- The variables that have a value, in order. -/
def keys (m : VariableMap α) : List Variable := m.entries.map Prod.fst

/-- The number of entries. -/
def size (m : VariableMap α) : Nat := m.entries.length

/-- Whether the map has no entries. -/
def isEmpty (m : VariableMap α) : Bool := m.entries.isEmpty

/-- The value of `a`, if it has one. -/
def get? (m : VariableMap α) (a : Variable) : Option α := m.entries.lookup a

/-- The entries with the value of `a` replaced. -/
def replaceValue (entries : List (Variable × α)) (a : Variable) (value : α) :
    List (Variable × α) :=
  entries.map (fun e => if e.1 = a then (a, value) else e)

theorem keys_replaceValue (entries : List (Variable × α)) (a : Variable) (value : α) :
    (replaceValue entries a value).map Prod.fst = entries.map Prod.fst := by
  induction entries with
  | nil => rfl
  | cons e es ih =>
    rw [replaceValue, List.map_cons, List.map_cons, List.map_cons, ← replaceValue, ih]
    by_cases h : e.1 = a <;> simp [h]

/-- The map with `value` for `a`, at the place that `a` has or else at the end. -/
def insert (m : VariableMap α) (a : Variable) (value : α) : VariableMap α :=
  if h : a ∈ m.keys then
    ⟨replaceValue m.entries a value, by rw [keys_replaceValue]; exact m.nodup⟩
  else
    ⟨m.entries ++ [(a, value)], by
      rw [List.map_append, List.nodup_append]
      refine ⟨m.nodup, List.pairwise_singleton _ _, ?_⟩
      rintro b hb c hc rfl
      exact h ((List.mem_singleton.mp hc : b = a) ▸ hb)⟩

/-- The entries inserted one after another. -/
def ofList (entries : List (Variable × α)) : VariableMap α :=
  entries.foldl (fun m e => m.insert e.1 e.2) empty

theorem map_fst_zip (as : List Variable) (values : List α) :
    (as.zip values).map Prod.fst = as.take values.length := by
  induction as generalizing values with
  | nil => simp
  | cons a as ih => cases values <;> simp [ih]

/-- The variables of `V` with the values of a list, place by place. -/
def zip (V : VariableSet) (values : List α) : VariableMap α where
  entries := V.toList.zip values
  nodup := by
    refine List.Sublist.nodup ?_ V.nodup
    rw [map_fst_zip]
    exact List.take_sublist _ _

theorem lookup_cons (e : Variable × α) (es : List (Variable × α)) (a : Variable) :
    List.lookup a (e :: es) = if a = e.1 then some e.2 else List.lookup a es := by
  rw [List.lookup_cons]
  by_cases h : a = e.1
  · rw [if_pos h, beq_iff_eq.mpr h]
  · rw [if_neg h, beq_eq_false_iff_ne.mpr h]

theorem lookup_replaceValue (entries : List (Variable × α)) (a b : Variable) (value : α) :
    (replaceValue entries a value).lookup b =
      if b = a then (entries.lookup a).map (fun _ => value) else entries.lookup b := by
  induction entries with
  | nil => simp [replaceValue]
  | cons e es ih =>
    rw [replaceValue, List.map_cons, ← replaceValue, lookup_cons, lookup_cons, lookup_cons, ih]
    by_cases hb : b = a
    · by_cases he : e.1 = a
      · simp [hb, he]
      · simp [hb, he, Ne.symm he]
    · by_cases he : e.1 = a
      · simp [hb, he]
      · simp [hb, he]

theorem lookup_eq_none_iff (entries : List (Variable × α)) (a : Variable) :
    entries.lookup a = none ↔ a ∉ entries.map Prod.fst := by
  induction entries with
  | nil => simp
  | cons e es ih =>
    rw [lookup_cons, List.map_cons, List.mem_cons, not_or]
    by_cases h : a = e.1
    · simp [h]
    · simp [h, ih]

theorem get?_insert (m : VariableMap α) (a b : Variable) (value : α) :
    (m.insert a value).get? b = if b = a then some value else m.get? b := by
  unfold insert get?
  split
  · next h =>
    rw [lookup_replaceValue]
    cases hl : m.entries.lookup a with
    | none => exact absurd h ((lookup_eq_none_iff m.entries a).mp hl)
    | some _ => rfl
  · next h =>
    have hn := (lookup_eq_none_iff m.entries a).mpr h
    rw [List.lookup_append, lookup_cons]
    by_cases hb : b = a
    · rw [hb, hn]
      simp
    · simp [hb]

end VariableMap
end Sentential
