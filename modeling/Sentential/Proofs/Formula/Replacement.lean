/-
# Equivalent formulas replace each other

Whether two formulas are equivalent is found over the variables of these two, so three verdicts
about three formulas come from three sets of valuations.  What they have in common is the value of
a formula under an assignment to all variables (`equivalent_eq_true_iff`).  Equivalence is therefore
reflexive, symmetric and transitive, and it is kept when both formulas are put in the place of the
same part of a third one, whatever variables stand around that part.

* `Formula.Context`: a formula with a hole, and `Formula.inside_iff_exists_fill`: the parts of a
  formula are what can stand in the holes;
* `Formula.equivalent_congr`: equivalent formulas get the same verdicts;
* `Formula.equivalent_fill`: they may replace each other in a context;
* `Formula.equivalence_is_congruence`: all together.
-/
import Sentential.Proofs.Formula.Equivalence
import Sentential.Proofs.Formula.Nesting

namespace Sentential
namespace Formula

/-! ## 1. Contexts -/

/-- A formula with a hole in the place of one of its parts. -/
inductive Context where
  | hole
  | negation (operand : Context)
  | left (op : BinaryConnective) (left : Context) (right : Formula)
  | right (op : BinaryConnective) (left : Formula) (right : Context)

namespace Context

/-- The formula with the hole filled. -/
def fill : Context → Formula → Formula
  | hole, f => f
  | negation C, f => .negation (C.fill f)
  | left op C r, f => .binary op (C.fill f) r
  | right op l C, f => .binary op l (C.fill f)

/-- What fills the hole is a part of the formula. -/
theorem inside_fill (C : Context) (f : Formula) : ∃ n pre, Inside (C.fill f) n pre f := by
  induction C with
  | hole => exact ⟨_, _, .here f⟩
  | negation C ih =>
    obtain ⟨n, pre, h⟩ := ih
    exact ⟨_, _, .operand h⟩
  | left op C r ih =>
    obtain ⟨n, pre, h⟩ := ih
    exact ⟨_, _, .left op r h⟩
  | right op l C ih =>
    obtain ⟨n, pre, h⟩ := ih
    exact ⟨_, _, .right op l h⟩

/-- The hole passes on its value: around it everything stays as it is. -/
theorem truth_fill_congr (C : Context) {σ : Variable → Bool} {f g : Formula}
    (h : f.truth σ = g.truth σ) : (C.fill f).truth σ = (C.fill g).truth σ := by
  induction C with
  | hole => exact h
  | negation C ih => rw [fill, fill, truth, truth, ih]
  | left op C r ih => rw [fill, fill, truth, truth, ih]
  | right op l C ih => rw [fill, fill, truth, truth, ih]

end Context

/-- Every part of a formula stands in the hole of a context. -/
theorem Inside.exists_fill {f part : Formula} {n : Nat} {pre : List Char}
    (h : Inside f n pre part) : ∃ C : Context, C.fill part = f := by
  induction h with
  | here f => exact ⟨.hole, rfl⟩
  | operand h ih =>
    obtain ⟨C, rfl⟩ := ih
    exact ⟨.negation C, rfl⟩
  | left op r h ih =>
    obtain ⟨C, rfl⟩ := ih
    exact ⟨.left op C r, rfl⟩
  | right op l h ih =>
    obtain ⟨C, rfl⟩ := ih
    exact ⟨.right op l C, rfl⟩

/-- **Contexts miss no place**: what fills a hole is a part, and every part fills one. -/
theorem inside_iff_exists_fill {f part : Formula} :
    (∃ n pre, Inside f n pre part) ↔ ∃ C : Context, C.fill part = f := by
  constructor
  · rintro ⟨n, pre, h⟩
    exact h.exists_fill
  · rintro ⟨C, rfl⟩
    exact C.inside_fill part

/-! ## 2. Verdicts -/

variable {f g h : Formula}

theorem equivalent_self (f : Formula) : f.equivalent f = .ok true :=
  equivalent_eq_true_iff.mpr fun _ => rfl

/-- **Equivalent formulas get the same verdicts**, although they may be compared with a third one
over different variables. -/
theorem equivalent_congr (hfg : f.equivalent g = .ok true) (h : Formula) :
    f.equivalent h = g.equivalent h := by
  have htruth := equivalent_eq_true_iff.mp hfg
  refine equivalent_eq_of_iff ?_
  simp only [equivalent_eq_true_iff, htruth]

theorem equivalent_trans (hfg : f.equivalent g = .ok true) (hgh : g.equivalent h = .ok true) :
    f.equivalent h = .ok true := by
  rw [equivalent_congr hfg, hgh]

/-- **Equivalent formulas may replace each other.** -/
theorem equivalent_fill (C : Context) (hfg : f.equivalent g = .ok true) :
    (C.fill f).equivalent (C.fill g) = .ok true :=
  equivalent_eq_true_iff.mpr fun σ => C.truth_fill_congr (equivalent_eq_true_iff.mp hfg σ)

/-! ## 3. All together -/

/-- **Equivalence is a congruence.**  It is reflexive, symmetric and transitive, whatever letters the
formula in the middle has that the outer ones lack; and a part of a formula may be replaced by an
equivalent one wherever it stands, for the contexts are the places of the parts. -/
theorem equivalence_is_congruence :
    (∀ f : Formula, f.equivalent f = .ok true) ∧
    (∀ f g : Formula, f.equivalent g = g.equivalent f) ∧
    (∀ f g h : Formula, f.equivalent g = .ok true → g.equivalent h = .ok true →
      f.equivalent h = .ok true) ∧
    (∀ (C : Context) (f g : Formula), f.equivalent g = .ok true →
      (C.fill f).equivalent (C.fill g) = .ok true) ∧
    ∀ whole part : Formula,
      (∃ n pre, Inside whole n pre part) ↔ ∃ C : Context, C.fill part = whole := by
  refine ⟨equivalent_self, equivalent_comm, ?_, ?_, ?_⟩
  · intro f g h hfg hgh
    exact equivalent_trans hfg hgh
  · intro C f g hfg
    exact equivalent_fill C hfg
  · intro whole part
    exact inside_iff_exists_fill

/-- The middle formula has a letter that neither of the others has, and the context one that none
of the three has. -/
theorem congruent_through_another_letter :
    let f : Formula := .binary .conditional (.atom (.variable .p)) (.atom (.variable .p))
    let g : Formula := .binary .disjunction (.atom (.variable .q))
      (.negation (.atom (.variable .q)))
    let h : Formula := .atom (.constant true)
    let C : Context := .negation (.left .conjunction .hole (.atom (.variable .r)))
    f.equivalent g = .ok true ∧ g.equivalent h = .ok true ∧ f.equivalent h = .ok true ∧
      (C.fill f).equivalent (C.fill h) = .ok true := by
  intro f g h C
  obtain ⟨-, -, htrans, hfill, -⟩ := equivalence_is_congruence
  have hfg : f.equivalent g = .ok true := rfl
  have hgh : g.equivalent h = .ok true := rfl
  have hfh : f.equivalent h = .ok true := htrans f g h hfg hgh
  exact ⟨hfg, hgh, hfh, hfill C f h hfh⟩

end Formula
end Sentential
