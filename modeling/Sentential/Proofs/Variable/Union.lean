/-
# Collecting variables is uniting sets

The variables of a formula are gathered in one set that every leaf is inserted into, and two
finished sets are united by inserting the elements of one into the other.  Both come to the same,
order included, since an insertion drops exactly what is there already: what a set becomes is its
own elements, then the first occurrences of those that it lacks (`toList_insertAll`).

* `VariableSet.toList_union`: a union keeps the left set and adds what it lacks;
* `VariableSet.union_assoc`, `union_self`, `empty_union`, `union_empty`: the laws of a monoid in
  which every element is idempotent;
* `Formula.toList_variableSet`: the variables of a formula are its leaves without repeats;
* `Formula.collecting_is_homomorphism`: all together.
-/
import Sentential.Proofs.Variable.Collection

namespace Sentential

/-! ## 1. Lists without repeats -/

/-- Where there is no repeat, none is erased. -/
theorem eraseDups_of_nodup {as : List Variable} (h : as.Nodup) : as.eraseDups = as := by
  induction as with
  | nil => rfl
  | cons a as ih =>
    obtain ⟨ha, has⟩ := List.nodup_cons.mp h
    have hkept : as.filter (fun b => !b == a) = as := by
      rw [List.filter_eq_self]
      intro b hb
      simpa using ne_of_mem_of_not_mem hb ha
    rw [List.eraseDups_cons, hkept, ih has]

/-- Taking out one more element after the others. -/
theorem removeAll_concat (as bs : List Variable) (a : Variable) :
    as.removeAll (bs ++ [a]) = (as.removeAll bs).filter fun b => !b == a := by
  rw [List.removeAll, List.removeAll, List.filter_filter]
  refine List.filter_congr ?_
  intro b _
  simp [beq_eq_decide, Bool.and_comm]

namespace VariableSet

/-! ## 2. What is inserted -/

/-- **An insertion drops what is there already.**  The set keeps its elements and gets the first
occurrences of the others behind them.  The induction is on the list, for any set: the elements
that were inserted are the ones that later repeats of theirs are compared with. -/
theorem toList_insertAll (V : VariableSet) (as : List Variable) :
    (V.insertAll as).toList = V.toList ++ (as.removeAll V.toList).eraseDups := by
  induction as generalizing V with
  | nil => simp [insertAll, List.removeAll]
  | cons a as ih =>
    rw [insertAll_cons, ih, toList_insert]
    by_cases ha : a ∈ V.toList
    · simp [List.removeAll, ha]
    · rw [if_neg ha, removeAll_concat, List.append_assoc]
      simp [List.removeAll, List.eraseDups_cons, ha]

/-! ## 3. Unions -/

/-- **A union is the left set, then what the right set has more**, in its order. -/
theorem toList_union (V W : VariableSet) :
    (V ∪ W).toList = V.toList ++ W.toList.removeAll V.toList := by
  have hnodup : (W.toList.removeAll V.toList).Nodup := W.nodup.filter _
  show (V.insertAll W.toList).toList = _
  rw [toList_insertAll, eraseDups_of_nodup hnodup]

theorem union_empty (V : VariableSet) : V ∪ ∅ = V := rfl

theorem empty_union (V : VariableSet) : ∅ ∪ V = V := by
  ext1
  simp [toList_union, List.removeAll]

theorem union_self (V : VariableSet) : V ∪ V = V := by
  ext1
  simp [toList_union, List.removeAll]

/-- It makes no difference whether elements are inserted into the set in the middle first. -/
theorem union_assoc (U V W : VariableSet) : (U ∪ V) ∪ W = U ∪ (V ∪ W) :=
  (insertAll_toList_insertAll U V W.toList).symm

end VariableSet

/-! ## 4. Formulas -/

namespace Formula

/-- **The variables of a formula are its leaves with every later repeat dropped.** -/
theorem toList_variableSet (f : Formula) : f.variableSet.toList = f.occurrences.eraseDups := by
  rw [variableSet, collect_eq, VariableSet.toList_insertAll]
  simp [List.removeAll]

/-- **Collecting variables is a homomorphism.**  A formula has the variables of its leaves from left
to right, each where it is met first; joining two formulas unites their sets, whatever the
connective.  A union keeps the left set in front and adds the elements that only the right one has,
in their order and none of them twice; it is associative and idempotent, and nothing is added by the
empty set on either side. -/
theorem collecting_is_homomorphism :
    (∀ f : Formula, f.variableSet.toList = f.occurrences.eraseDups) ∧
    (∀ (op : BinaryConnective) (f g : Formula),
      (binary op f g).variableSet = f.variableSet ∪ g.variableSet) ∧
    (∀ V W : VariableSet, (V ∪ W).toList = V.toList ++ W.toList.removeAll V.toList ∧
      (V.toList ++ W.toList.removeAll V.toList).Nodup) ∧
    (∀ U V W : VariableSet, (U ∪ V) ∪ W = U ∪ (V ∪ W)) ∧
    (∀ V : VariableSet, V ∪ V = V) ∧
    ∀ V : VariableSet, ∅ ∪ V = V ∧ V ∪ ∅ = V := by
  refine ⟨toList_variableSet, variableSet_binary, ?_, VariableSet.union_assoc,
    VariableSet.union_self, ?_⟩
  · intro V W
    have hunion := VariableSet.toList_union V W
    exact ⟨hunion, hunion ▸ (V ∪ W).nodup⟩
  · intro V
    exact ⟨V.empty_union, V.union_empty⟩

end Formula
end Sentential
