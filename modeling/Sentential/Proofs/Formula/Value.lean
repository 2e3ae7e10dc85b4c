/-
# The value of a formula under a valuation that binds its variables

`Formula.truth` is the value of a formula when every variable has one, with no error in sight.  A
valuation that binds the variables of a formula gives it that value (`Formula.value_eq_truth`), so
the order of insertion and what else is bound do not matter.
-/
import Sentential.Formula.Value
import Sentential.Proofs.Variable.Collection

namespace Sentential

/-- The valuation has a value for every variable of the set. -/
def Valuation.Binds (v : Valuation) (V : VariableSet) : Prop :=
  ∀ a ∈ V, ∃ b, v.get? a = some b

/-- The valuation with false for the variables that it leaves out. -/
def Valuation.total (v : Valuation) (a : Variable) : Bool :=
  (v.get? a).getD false

theorem Valuation.Binds.get? {v : Valuation} {V : VariableSet} (h : v.Binds V) {a : Variable}
    (ha : a ∈ V) : v.get? a = some (v.total a) := by
  obtain ⟨b, hb⟩ := h a ha
  rw [total, hb]
  rfl

namespace Formula

/-- The value of a formula when each variable has one. -/
def truth (σ : Variable → Bool) : Formula → Bool
  | atom (.variable a) => σ a
  | atom (.constant b) => b
  | negation f => !f.truth σ
  | binary op l r => op.apply (l.truth σ) (r.truth σ)

/-- The value depends on the variables of the formula and on nothing else. -/
theorem truth_congr {σ τ : Variable → Bool} {f : Formula} (h : ∀ a ∈ f.variableSet, σ a = τ a) :
    f.truth σ = f.truth τ := by
  simp only [mem_variableSet] at h
  induction f with
  | atom a =>
    rcases a with a | b
    · exact h a (by simp)
    · rfl
  | negation f ih => rw [truth, truth, ih h]
  | binary op l r ihl ihr =>
    rw [truth, truth, ihl fun a ha => h a (by simp [ha]), ihr fun a ha => h a (by simp [ha])]

/-- **A valuation that binds the variables of a formula gives it its value.** -/
theorem value_eq_truth {v : Valuation} {σ : Variable → Bool} {f : Formula}
    (h : ∀ a ∈ f.variableSet, v.get? a = some (σ a)) : f.value v = .ok (f.truth σ) := by
  simp only [mem_variableSet] at h
  induction f with
  | atom a =>
    rcases a with a | b
    · rw [value, Atom.value, h a (by simp), truth]
    · rfl
  | negation f ih => rw [value, ih h, truth]
  | binary op l r ihl ihr =>
    rw [value, ihl fun a ha => h a (by simp [ha]), ihr fun a ha => h a (by simp [ha]), truth]

theorem value_eq_truth_total {v : Valuation} {f : Formula} (h : v.Binds f.variableSet) :
    f.value v = .ok (f.truth v.total) :=
  value_eq_truth fun _ ha => h.get? ha

end Formula
end Sentential
