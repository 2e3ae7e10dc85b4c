/-
# Which variables are collected

What is in a set of variables after insertions, in a union, and in the set of the variables of a
formula, and in what order.

* `VariableSet.mem_union`: a union has the elements of both sets;
* `VariableSet.find?_insertAll`: repeats do not matter to a search from the front;
* `Formula.mem_variableSet`: a formula's set has the variables that stand in its leaves;
* `Formula.variableSet_binary`: collecting from two operands is uniting their sets.
-/
import Mathlib.Data.List.Nodup
import Sentential.Formula.Variables

namespace Sentential
namespace VariableSet

variable {a b : Variable}

theorem mem_insert {V : VariableSet} : a ∈ V.insert b ↔ a ∈ V ∨ a = b := by
  show a ∈ (V.insert b).toList ↔ a ∈ V.toList ∨ a = b
  rw [toList_insert]
  split
  · next hb => exact ⟨Or.inl, fun h => h.elim id (fun hab => hab ▸ hb)⟩
  · rw [List.mem_append, List.mem_singleton]

theorem mem_insertAll {V : VariableSet} {as : List Variable} :
    a ∈ V.insertAll as ↔ a ∈ V ∨ a ∈ as := by
  induction as generalizing V with
  | nil => simp [insertAll]
  | cons b bs ih =>
    rw [insertAll, List.foldl_cons, ← insertAll, ih, mem_insert, List.mem_cons, or_assoc]

theorem mem_union {V W : VariableSet} : a ∈ V ∪ W ↔ a ∈ V ∨ a ∈ W :=
  mem_insertAll

theorem insert_of_mem {V : VariableSet} (h : a ∈ V) : V.insert a = V :=
  dif_pos h

theorem insertAll_cons (V : VariableSet) (a : Variable) (as : List Variable) :
    V.insertAll (a :: as) = (V.insert a).insertAll as :=
  rfl

theorem insertAll_append (V : VariableSet) (as bs : List Variable) :
    V.insertAll (as ++ bs) = (V.insertAll as).insertAll bs :=
  List.foldl_append

/-- Elements may be inserted into the other set first: what is dropped there as a repeat would be
dropped here too. -/
theorem insertAll_toList_insertAll (V W : VariableSet) (as : List Variable) :
    V.insertAll (W.insertAll as).toList = (V.insertAll W.toList).insertAll as := by
  induction as generalizing W with
  | nil => rfl
  | cons a as ih =>
    have hinsert : V.insertAll (W.insert a).toList = (V.insertAll W.toList).insert a := by
      rw [toList_insert]
      split
      · next ha => rw [insert_of_mem (mem_insertAll.mpr (.inr ha))]
      · rw [insertAll_append]
        rfl
    rw [insertAll_cons, ih, hinsert, insertAll_cons]

/-- **A search from the front finds the same among the occurrences**, repeats and all: a repeat
comes behind an element that was refused already. -/
theorem find?_insertAll (p : Variable → Bool) (V : VariableSet) (as : List Variable) :
    (V.insertAll as).toList.find? p = (V.toList ++ as).find? p := by
  induction as generalizing V with
  | nil => rw [List.append_nil]; rfl
  | cons a as ih =>
    rw [insertAll_cons, ih, toList_insert]
    split
    · next ha =>
      rw [List.find?_append, List.find?_append]
      cases hV : V.toList.find? p with
      | some b => rfl
      | none => rw [List.find?_cons_of_neg (List.find?_eq_none.mp hV a ha)]
    · rw [List.append_assoc, List.singleton_append]

/-- Where there is no repeat, nothing is dropped. -/
theorem toList_insertAll_of_nodup {V : VariableSet} {as : List Variable}
    (h : (V.toList ++ as).Nodup) : (V.insertAll as).toList = V.toList ++ as := by
  induction as generalizing V with
  | nil => rw [List.append_nil]; rfl
  | cons a as ih =>
    have hfresh : a ∉ V.toList := fun ha =>
      (List.nodup_append.mp h).2.2 a ha a List.mem_cons_self rfl
    have hinsert : (V.insert a).toList = V.toList ++ [a] := by
      rw [toList_insert, if_neg hfresh]
    rw [insertAll_cons, ih, hinsert, List.append_assoc, List.singleton_append]
    rwa [hinsert, List.append_assoc]

/-- There are no more variables than letters. -/
theorem size_le (V : VariableSet) : V.size ≤ 11 :=
  V.nodup.length_le_of_subset fun a _ => a.mem_all

end VariableSet

namespace Formula

@[simp] theorem occurrences_variable (a : Variable) : (atom (.variable a)).occurrences = [a] :=
  rfl

@[simp] theorem occurrences_negation (f : Formula) : (negation f).occurrences = f.occurrences :=
  rfl

@[simp] theorem occurrences_binary (op : BinaryConnective) (l r : Formula) :
    (binary op l r).occurrences = l.occurrences ++ r.occurrences :=
  List.filterMap_append

theorem mem_variableSet {f : Formula} {a : Variable} :
    a ∈ f.variableSet ↔ a ∈ f.occurrences := by
  rw [variableSet, collect_eq, VariableSet.mem_insertAll]
  exact ⟨fun h => h.elim (fun ha => absurd ha List.not_mem_nil) id, Or.inr⟩

/-- A formula without repeats has its variables in the order of its leaves. -/
theorem toList_variableSet_of_nodup {f : Formula} (h : f.occurrences.Nodup) :
    f.variableSet.toList = f.occurrences := by
  rw [variableSet, collect_eq]
  exact VariableSet.toList_insertAll_of_nodup h

/-- **Collecting through one set is uniting two of them**, order included. -/
theorem variableSet_binary (op : BinaryConnective) (l r : Formula) :
    (binary op l r).variableSet = l.variableSet ∪ r.variableSet := by
  show r.collect l.variableSet = l.variableSet.insertAll r.variableSet.toList
  rw [collect_eq, variableSet, variableSet, collect_eq ∅ r,
    VariableSet.insertAll_toList_insertAll]
  rfl

end Formula
end Sentential
