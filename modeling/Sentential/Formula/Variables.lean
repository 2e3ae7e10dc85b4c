/-
# The variables of a formula

Collected from left to right into one set that the whole formula shares, so a variable keeps the
place of its first occurrence.  `Formula.leaves` lists every occurrence.

* `collect_eq`: collecting is inserting the variable leaves in order.
-/
import Sentential.Formula
import Sentential.Variable.Set

namespace Sentential
namespace Formula

/-- The set with the variables of a formula inserted from left to right. -/
def collect (V : VariableSet) : Formula → VariableSet
  | atom (.variable letter) => V.insert letter
  | atom (.constant _) => V
  | negation f => f.collect V
  | binary _ l r => r.collect (l.collect V)

/-- The variables of a formula in the order of their first occurrence. -/
def variableSet (f : Formula) : VariableSet := f.collect ∅

/-- The atoms of a formula from left to right. -/
def leaves : Formula → List Atom
  | atom a => [a]
  | negation f => f.leaves
  | binary _ l r => l.leaves ++ r.leaves

/-- The variable leaves of a formula from left to right, each occurrence listed. -/
def occurrences (f : Formula) : List Variable :=
  f.leaves.filterMap fun
    | .variable letter => some letter
    | .constant _ => none

theorem collect_eq (V : VariableSet) (f : Formula) :
    f.collect V = V.insertAll f.occurrences := by
  induction f generalizing V with
  | atom a => cases a <;> rfl
  | negation f ih => exact ih V
  | binary op l r ihl ihr =>
    rw [collect, ihl, ihr]
    simp [VariableSet.insertAll, occurrences, leaves, List.filterMap_append]

end Formula
end Sentential
