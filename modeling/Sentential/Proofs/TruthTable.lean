/-
# Every formula has a truth table

The rows of a table bind every variable of its formula, so no row is without a value.  A formula is
equivalent to another one exactly if the table of the biconditional between them is true in every
row: collecting the variables of the biconditional is uniting those of its sides, so the table goes
through the very valuations under which the sides are compared.

* `TruthTable.ofFormula_eq`: the table of a formula;
* `TruthTable.biconditional_table_decides_equivalence`: what the table of a biconditional says.
-/
import Sentential.TruthTable
import Sentential.Proofs.Formula.Equivalence

namespace Sentential

theorem Formula.values_eq {f : Formula} {vs : List Valuation}
    (h : ∀ v ∈ vs, v.Binds f.variableSet) :
    f.values vs = .ok (vs.map fun v => f.truth v.total) := by
  induction vs with
  | nil => rfl
  | cons v vs ih =>
    rw [values, value_eq_truth_total (h v List.mem_cons_self),
      ih fun w hw => h w (List.mem_cons_of_mem v hw)]
    rfl

namespace TruthTable

/-- **The table of a formula**: its variables in order, and its value under each valuation of
them. -/
theorem ofFormula_eq (f : Formula) :
    ofFormula f = .ok {
      formula := f
      columns := f.variableSet.toList
      rows := (Valuation.all f.variableSet).map fun v => (v, f.truth v.total) } := by
  have hvalues : f.values (Valuation.all f.variableSet) =
      .ok ((Valuation.all f.variableSet).map fun v => f.truth v.total) :=
    Formula.values_eq fun v hv => Valuation.binds_of_mem_all hv
  simp only [ofFormula, hvalues, Except.map, List.map_prod_left_eq_zip]

theorem results_mk (f : Formula) (columns : List Variable) (vs : List Valuation) :
    results ⟨f, columns, vs.map fun v => (v, f.truth v.total)⟩ =
      vs.map fun v => f.truth v.total :=
  List.map_map

/-- **Equivalence can be read off a truth table.**  The biconditional between two formulas always
has a table, whose columns are the variables of the two sets united, in that order; and the
formulas are equivalent exactly if it is true in every row. -/
theorem biconditional_table_decides_equivalence (f g : Formula) :
    ∃ t, ofFormula (.binary .biconditional f g) = .ok t ∧
      (f.equivalent g = .ok true ↔ ∀ b ∈ t.results, b = true) ∧
      t.columns = (f.variableSet ∪ g.variableSet).toList := by
  refine ⟨_, ofFormula_eq _, ?_, ?_⟩
  · rw [results_mk, List.forall_mem_map, Formula.variableSet_binary, Formula.equivalent_eq,
      Except.ok.injEq, List.all_eq_true]
    -- a biconditional is true exactly where the values of its sides are the same
    rfl
  · rw [Formula.variableSet_binary]

end TruthTable
end Sentential
