/-
# Equivalence is decided

`Formula.equivalent` looks at the valuations of the variables of both formulas only, one row of
truth values after another.  Every assignment of truth values to these variables is such a row
(`Valuation.exists_mem_all`), and no other variable makes a difference, so it decides whether two
formulas have the same value under every valuation that binds their variables.

* `Formula.sameValues_iff_truth`: agreeing under valuations is agreeing under assignments;
* `Formula.equivalent_eq`: the check never fails, and says whether the rows agree;
* `Formula.equivalent_decides`: it decides equivalence.
-/
import Sentential.Formula.Equivalent
import Sentential.Proofs.Formula.Value
import Sentential.Proofs.Variable.Zip

namespace Sentential

/-! ## 1. The valuations of a set -/

namespace Valuation

theorem binds_of_mem_all {V : VariableSet} {v : Valuation} (h : v ∈ all V) : v.Binds V := by
  obtain ⟨row, hrow, rfl⟩ := List.mem_map.mp h
  exact fun a ha => VariableMap.exists_lookup_zip (mem_truthRows.mp hrow) ha

/-- **The enumeration misses no assignment.** -/
theorem exists_mem_all (V : VariableSet) (σ : Variable → Bool) :
    ∃ v ∈ all V, ∀ a ∈ V, v.get? a = some (σ a) := by
  refine ⟨VariableMap.zip V (V.toList.map σ), ?_, fun a ha => VariableMap.lookup_zip_map ha⟩
  exact List.mem_map.mpr ⟨_, mem_truthRows.mpr (List.length_map σ), rfl⟩

end Valuation

namespace Formula

/-! ## 2. Having the same values -/

/-- Two formulas have the same value under every valuation that binds the variables of both, in
whatever order and beside whatever others. -/
def SameValues (f g : Formula) : Prop :=
  ∀ v : Valuation, v.Binds f.variableSet → v.Binds g.variableSet → f.value v = g.value v

theorem sameValues_iff_truth {f g : Formula} :
    SameValues f g ↔ ∀ σ, f.truth σ = g.truth σ := by
  constructor
  · intro h σ
    obtain ⟨v, hv, hσ⟩ := Valuation.exists_mem_all (f.variableSet ∪ g.variableSet) σ
    have hf : ∀ a ∈ f.variableSet, v.get? a = some (σ a) := fun a ha =>
      hσ a (VariableSet.mem_union.mpr (.inl ha))
    have hg : ∀ a ∈ g.variableSet, v.get? a = some (σ a) := fun a ha =>
      hσ a (VariableSet.mem_union.mpr (.inr ha))
    have hfg := h v (fun a ha => ⟨_, hf a ha⟩) fun a ha => ⟨_, hg a ha⟩
    rw [value_eq_truth hf, value_eq_truth hg] at hfg
    exact Except.ok.inj hfg
  · intro h v hf hg
    rw [value_eq_truth_total hf, value_eq_truth_total hg, h]

/-! ## 3. The check -/

/-- Where both formulas have values, the comparison goes on as long as these are the same. -/
theorem agreeUnder_eq {f g : Formula} {vs : List Valuation}
    (hf : ∀ v ∈ vs, v.Binds f.variableSet) (hg : ∀ v ∈ vs, v.Binds g.variableSet) :
    agreeUnder f g vs = .ok (vs.all fun v => f.truth v.total == g.truth v.total) := by
  induction vs with
  | nil => rfl
  | cons v vs ih =>
    rw [agreeUnder, value_eq_truth_total (hf v List.mem_cons_self),
      value_eq_truth_total (hg v List.mem_cons_self),
      ih (fun w hw => hf w (List.mem_cons_of_mem v hw))
        (fun w hw => hg w (List.mem_cons_of_mem v hw)), List.all_cons]
    by_cases h : f.truth v.total = g.truth v.total <;> simp [h]

/-- **The check never fails**: every variable that either formula asks for is bound. -/
theorem equivalent_eq (f g : Formula) :
    f.equivalent g = .ok ((Valuation.all (f.variableSet ∪ g.variableSet)).all fun v =>
      f.truth v.total == g.truth v.total) := by
  refine agreeUnder_eq ?_ ?_
  · exact fun v hv a ha => Valuation.binds_of_mem_all hv a (VariableSet.mem_union.mpr (.inl ha))
  · exact fun v hv a ha => Valuation.binds_of_mem_all hv a (VariableSet.mem_union.mpr (.inr ha))

theorem equivalent_eq_true_iff {f g : Formula} :
    f.equivalent g = .ok true ↔ ∀ σ, f.truth σ = g.truth σ := by
  rw [equivalent_eq, Except.ok.injEq, List.all_eq_true]
  constructor
  · intro h σ
    obtain ⟨v, hv, hσ⟩ := Valuation.exists_mem_all (f.variableSet ∪ g.variableSet) σ
    have htotal : ∀ a ∈ f.variableSet ∪ g.variableSet, σ a = v.total a := by
      intro a ha
      rw [Valuation.total, hσ a ha]
      rfl
    calc f.truth σ = f.truth v.total :=
          truth_congr fun a ha => htotal a (VariableSet.mem_union.mpr (.inl ha))
      _ = g.truth v.total := beq_iff_eq.mp (h v hv)
      _ = g.truth σ := (truth_congr fun a ha =>
          htotal a (VariableSet.mem_union.mpr (.inr ha))).symm
  · exact fun h v _ => beq_iff_eq.mpr (h v.total)

/-- There are two verdicts only, so one is known by whether it is the first of them. -/
theorem equivalent_eq_of_iff {f g f' g' : Formula}
    (h : f.equivalent g = .ok true ↔ f'.equivalent g' = .ok true) :
    f.equivalent g = f'.equivalent g' := by
  rw [equivalent_eq f g, equivalent_eq f' g', Except.ok.injEq, Except.ok.injEq] at h
  rw [equivalent_eq f g, equivalent_eq f' g', Bool.eq_iff_iff.mpr h]

/-- The order in which two formulas are compared makes no difference. -/
theorem equivalent_comm (f g : Formula) : f.equivalent g = g.equivalent f := by
  refine equivalent_eq_of_iff ?_
  rw [equivalent_eq_true_iff, equivalent_eq_true_iff]
  exact ⟨fun h σ => (h σ).symm, fun h σ => (h σ).symm⟩

/-- **The check decides equivalence.**  It gives an answer for any two formulas, and the answer is
whether they have the same value under every valuation that binds the variables of both. -/
theorem equivalent_decides (f g : Formula) :
    (∀ e, f.equivalent g ≠ .error e) ∧
      (f.equivalent g = .ok true ↔ SameValues f g) ∧
      (f.equivalent g = .ok false ↔ ¬ SameValues f g) := by
  have htrue : f.equivalent g = .ok true ↔ SameValues f g :=
    equivalent_eq_true_iff.trans sameValues_iff_truth.symm
  refine ⟨?_, htrue, ?_⟩
  · intro e he
    rw [equivalent_eq] at he
    exact nomatch he
  · rw [← htrue, equivalent_eq, Except.ok.injEq, Except.ok.injEq, Bool.not_eq_true]

end Formula
end Sentential
