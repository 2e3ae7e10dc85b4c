/-
# Answers are judged by their meaning

Without its blanks an answer is a formula or it is malformed.  A formula is right exactly if it is
equivalent to that of the exercise.  The two may have different variables: they are compared under
the valuations of all of these, so no answer is without a value.

* `judge_of_parse`: the verdict on an answer that is a formula;
* `Exercise.judge_decides_answers`: the verdict on any answer.
-/
import Sentential.Exercise
import Sentential.Proofs.Formula.Equivalence
import Sentential.Proofs.Formula.RoundTrip
import Sentential.Proofs.Text.Blank

namespace Sentential

/-! ## 1. Answers as they stand -/

/-- **A formula is judged by its values.** -/
theorem judge_of_parse (expected : Formula) {c : Formula} {answer : String}
    (hc : Formula.parse answer = .ok c) :
    ∃ right, judge expected answer = .ok right ∧
      (right = true ↔ Formula.SameValues c expected) := by
  have hiff := Formula.equivalent_eq_true_iff (f := c) (g := expected)
  rw [← Formula.sameValues_iff_truth, Formula.equivalent_eq, Except.ok.injEq] at hiff
  refine ⟨_, ?_, hiff⟩
  rw [judge, hc]
  simp only [Formula.equivalent_eq]

theorem judge_of_parse_error (expected : Formula) {answer : String} {e : SyntaxError}
    (he : Formula.parse answer = .error e) :
    judge expected answer = .error (.malformed e) := by
  rw [judge, he]

/-! ## 2. Answers with blanks in them -/

namespace Exercise

theorem judge_ne_valueless (e : Exercise) (answer : String) (err : ValueError) :
    e.judge answer ≠ .error (.valueless err) := by
  intro h
  rw [Exercise.judge] at h
  cases hs : Formula.parse (withoutBlanks answer) with
  | ok c =>
    obtain ⟨right, hjudge, -⟩ := judge_of_parse e.formula hs
    rw [hjudge] at h
    cases h
  | error e' =>
    rw [judge_of_parse_error e.formula hs] at h
    cases h

theorem judge_congr (e : Exercise) {answer other : String}
    (h : SameButBlanks answer.toList other.toList) : e.judge other = e.judge answer := by
  rw [Exercise.judge, Exercise.judge, withoutBlanks_eq_iff.mpr h]

/-- **The verdict is whether the answer means the formula of the exercise.**  It is given for every
answer that is a formula without its blanks; any other answer is malformed and neither right nor
wrong.  Blanks make no difference, wherever they stand. -/
theorem judge_decides_answers (e : Exercise) (answer : String) :
    (∀ c : Formula, withoutBlanks answer = toString c → c.depth ≤ maxDepth →
      ∃ right, e.judge answer = .ok right ∧
        (right = true ↔ Formula.SameValues c e.formula)) ∧
    ((¬ ∃ c : Formula, withoutBlanks answer = toString c ∧ c.depth ≤ maxDepth) →
      ∃ err, Formula.parse (withoutBlanks answer) = .error err ∧
        e.judge answer = .error (.malformed err)) ∧
    (∀ err, e.judge answer ≠ .error (.valueless err)) ∧
    ∀ other : String, SameButBlanks answer.toList other.toList →
      e.judge other = e.judge answer := by
  refine ⟨?_, ?_, e.judge_ne_valueless answer, fun other => e.judge_congr⟩
  · intro c hc hdepth
    exact judge_of_parse e.formula (Formula.parse_eq_ok_iff.mpr ⟨hc, hdepth⟩)
  · intro h
    obtain ⟨err, herr⟩ := Formula.exists_parse_eq_error h
    exact ⟨err, herr, judge_of_parse_error e.formula herr⟩

/-- A blank inside an arrow does not count, and the variable that only the answer has does no
harm. -/
theorem judges_split_arrow :
    (Exercise.judge ⟨.binary .disjunction (.negation (.atom (.variable .p)))
        (.atom (.variable .q)), "", ∅⟩ "(p -\n> (q&(r | ~r)))") = .ok true := by
  have hanswer : withoutBlanks "(p -\n> (q&(r | ~r)))" = toString
      (Formula.binary .conditional (.atom (.variable .p)) (.binary .conjunction
        (.atom (.variable .q)) (.binary .disjunction (.atom (.variable .r))
          (.negation (.atom (.variable .r)))))) := by decide
  obtain ⟨hformula, -⟩ := judge_decides_answers ⟨.binary .disjunction
    (.negation (.atom (.variable .p))) (.atom (.variable .q)), "", ∅⟩ "(p -\n> (q&(r | ~r)))"
  obtain ⟨right, hjudge, hright⟩ := hformula _ hanswer (by decide)
  rw [hjudge, Except.ok.injEq, hright, Formula.sameValues_iff_truth]
  intro σ
  cases hp : σ .p <;> cases hq : σ .q <;> cases hr : σ .r <;>
    simp [Formula.truth, BinaryConnective.apply, hp, hq, hr]

end Exercise
end Sentential
