/-
# Logical equivalence

Two formulas are compared under every valuation of the variables of either, up to the first one
under which they differ.
-/
import Sentential.Formula.Value
import Sentential.Formula.Variables

namespace Sentential
namespace Formula

/-- Whether two formulas have the same value under each of the valuations. -/
def agreeUnder (f g : Formula) : List Valuation → Except ValueError Bool
  | [] => .ok true
  | v :: vs =>
    match f.value v with
    | .error e => .error e
    | .ok a =>
      match g.value v with
      | .error e => .error e
      | .ok b => if a = b then agreeUnder f g vs else .ok false

/-- Whether two formulas have the same value under every valuation of their variables. -/
def equivalent (f g : Formula) : Except ValueError Bool :=
  agreeUnder f g (Valuation.all (f.variableSet ∪ g.variableSet))

end Formula
end Sentential
