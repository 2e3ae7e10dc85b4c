/-
# The truth value of a formula

Both operands of a binary connective are always evaluated, the left one first, so a variable
without a value is reported even where the other operand alone would decide.
-/
import Sentential.Formula
import Sentential.Valuation

namespace Sentential

/-- Why a formula has no value. -/
inductive ValueError where
  | unbound (letter : Variable)
deriving DecidableEq

/-- The error in words. -/
def ValueError.message : ValueError → String
  | .unbound letter => "no value assigned to variable " ++ letter.name.toString

/-- The value that a valuation gives to an atom. -/
def Atom.value (v : Valuation) : Atom → Except ValueError Bool
  | .constant b => .ok b
  | .variable letter =>
    match v.get? letter with
    | some b => .ok b
    | none => .error (.unbound letter)

namespace Formula

/-- The value of a formula under a valuation. -/
def value (v : Valuation) : Formula → Except ValueError Bool
  | atom a => a.value v
  | negation f =>
    match f.value v with
    | .error e => .error e
    | .ok b => .ok (!b)
  | binary op l r =>
    match l.value v with
    | .error e => .error e
    | .ok a =>
      match r.value v with
      | .error e => .error e
      | .ok b => .ok (op.apply a b)

/-- The values of a formula under several valuations, in order. -/
def values (f : Formula) : List Valuation → Except ValueError (List Bool)
  | [] => .ok []
  | v :: vs =>
    match f.value v with
    | .error e => .error e
    | .ok b => (f.values vs).map (b :: ·)

end Formula
end Sentential
