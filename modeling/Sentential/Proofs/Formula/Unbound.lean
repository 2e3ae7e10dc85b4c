/-
# The variable that an evaluation misses

A formula is evaluated from left to right, and the first failure is passed on even where the other
operand alone would decide.  So an evaluation fails at the leftmost occurrence of a variable without
a value.  Among the variables of the formula this is the first one without a value: they are listed
as they first occur, and leaving out the repeats does not change which of them comes first.  What
else a valuation binds, and in which order, makes no difference.

* `Formula.value_eq`: the value, or the variable that is missed;
* `Formula.value_congr`: only the variables of the formula count;
* `Formula.value_fails_at_first_unbound`: the failures, by the variables of the formula.
-/
import Sentential.Proofs.Formula.Value

namespace Sentential

/-! ## 1. The first variable without a value -/

namespace Valuation

variable {v : Valuation} {V : VariableSet} {a : Variable}

/-- Whether the valuation has no value for the variable. -/
def misses (v : Valuation) (a : Variable) : Bool := (v.get? a).isNone

/-- The variable has no value, and those in front of it in the set have one. -/
def FirstUnbound (v : Valuation) (V : VariableSet) (a : Variable) : Prop :=
  v.get? a = none ∧ ∃ before after, V.toList = before ++ a :: after ∧
    ∀ c ∈ before, ∃ b, v.get? c = some b

theorem misses_iff : v.misses a = true ↔ v.get? a = none := Option.isNone_iff_eq_none

theorem not_misses_iff : v.misses a = false ↔ ∃ b, v.get? a = some b := by
  rw [misses, ← Option.not_isSome, Bool.not_eq_false', Option.isSome_iff_exists]

theorem find?_misses_eq_some_iff : V.toList.find? v.misses = some a ↔ v.FirstUnbound V a := by
  simp only [List.find?_eq_some_iff_append, FirstUnbound, misses_iff, Bool.not_eq_true',
    not_misses_iff]

theorem find?_misses_eq_none_iff : V.toList.find? v.misses = none ↔ v.Binds V := by
  simp only [List.find?_eq_none, Bool.not_eq_true, not_misses_iff]
  rfl

end Valuation

namespace Formula

/-! ## 2. Evaluation -/

/-- **A formula has a value or misses its leftmost variable without one.** -/
theorem value_eq (v : Valuation) (f : Formula) :
    f.value v = match f.occurrences.find? v.misses with
      | some a => .error (.unbound a)
      | none => .ok (f.truth v.total) := by
  induction f with
  | atom a =>
    rcases a with a | b
    · rw [value, Atom.value, truth, occurrences_variable, List.find?_singleton,
        Valuation.misses, Valuation.total]
      cases v.get? a <;> rfl
    · rfl
  | negation f ih =>
    rw [value, ih, occurrences_negation, truth]
    cases f.occurrences.find? v.misses <;> rfl
  | binary op l r ihl ihr =>
    -- the right operand is evaluated only if nothing is missed in the left one
    rw [value, ihl, ihr, occurrences_binary, List.find?_append, truth]
    cases l.occurrences.find? v.misses with
    | some a => rfl
    | none => cases r.occurrences.find? v.misses <;> rfl

theorem find?_variableSet (p : Variable → Bool) (f : Formula) :
    f.variableSet.toList.find? p = f.occurrences.find? p := by
  rw [variableSet, collect_eq, VariableSet.find?_insertAll, VariableSet.toList_empty,
    List.nil_append]

theorem value_eq_error_iff {v : Valuation} {f : Formula} {a : Variable} :
    f.value v = .error (.unbound a) ↔ v.FirstUnbound f.variableSet a := by
  rw [← Valuation.find?_misses_eq_some_iff, find?_variableSet, value_eq]
  cases f.occurrences.find? v.misses <;> simp

/-- A variable that is unbound in both valuations counts as the same too. -/
theorem value_congr {v w : Valuation} {f : Formula}
    (h : ∀ a ∈ f.variableSet, w.get? a = v.get? a) : f.value w = f.value v := by
  simp only [mem_variableSet] at h
  induction f with
  | atom a =>
    rcases a with a | b
    · rw [value, value, Atom.value, Atom.value, h a (by simp)]
    · rfl
  | negation f ih => rw [value, value, ih h]
  | binary op l r ihl ihr =>
    rw [value, value, ihl fun a ha => h a (by simp [ha]), ihr fun a ha => h a (by simp [ha])]

/-- **Evaluation fails exactly at the first variable without a value**, in the order of the
formula's variables and also where the other operand alone would decide.  If there is none the
formula has a value.  No variable outside the formula is looked at, nor the order in which a
valuation was made. -/
theorem value_fails_at_first_unbound (f : Formula) (v : Valuation) :
    (∀ a, f.value v = .error (.unbound a) ↔ v.FirstUnbound f.variableSet a) ∧
    ((∃ a ∈ f.variableSet, v.get? a = none) →
      ∃ a, v.FirstUnbound f.variableSet a ∧ f.value v = .error (.unbound a)) ∧
    ((∀ a ∈ f.variableSet, v.get? a ≠ none) → ∃ b, f.value v = .ok b) ∧
    ∀ w : Valuation, (∀ a ∈ f.variableSet, w.get? a = v.get? a) → f.value w = f.value v := by
  refine ⟨fun a => value_eq_error_iff, ?_, ?_, fun w => value_congr⟩
  · rintro ⟨a, ha, hnone⟩
    cases hfirst : f.variableSet.toList.find? v.misses with
    | none =>
      obtain ⟨b, hb⟩ := Valuation.find?_misses_eq_none_iff.mp hfirst a ha
      rw [hnone] at hb
      cases hb
    | some c =>
      have hc := Valuation.find?_misses_eq_some_iff.mp hfirst
      exact ⟨c, hc, value_eq_error_iff.mpr hc⟩
  · intro hbound
    exact ⟨_, value_eq_truth_total fun a ha => Option.ne_none_iff_exists'.mp (hbound a ha)⟩

/-- A conjunction with a false operand still misses a variable of the other one.  Bound in another
order and beside one that does not occur, its variables give it the same value. -/
theorem misses_variable_beside_false_operand :
    let f : Formula := .binary .conjunction (.atom (.variable .p))
      (.binary .conditional (.atom (.variable .q)) (.atom (.variable .r)))
    let u : Valuation := VariableMap.insert ∅ .p false
    let v : Valuation := ((VariableMap.insert ∅ .r true).insert .p false).insert .q true
    let w : Valuation :=
      (((VariableMap.insert ∅ .z true).insert .p false).insert .q true).insert .r true
    (∃ a, u.FirstUnbound f.variableSet a ∧ f.value u = .error (.unbound a)) ∧
      f.value u = .error (.unbound .q) ∧ (∃ b, f.value v = .ok b) ∧ f.value w = f.value v := by
  intro f u v w
  obtain ⟨hunbound, hmissed, -, -⟩ := value_fails_at_first_unbound f u
  obtain ⟨-, -, hbound, hsame⟩ := value_fails_at_first_unbound f v
  have hv : ∀ a ∈ f.variableSet.toList, v.get? a ≠ none := by decide
  have hw : ∀ a ∈ f.variableSet.toList, w.get? a = v.get? a := by decide
  refine ⟨hmissed ⟨.q, by decide, by decide⟩, (hunbound .q).mpr ?_, hbound hv, hsame w hw⟩
  exact ⟨by decide, [.p], [.r], by decide, by decide⟩

end Formula
end Sentential
