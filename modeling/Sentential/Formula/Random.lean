/-
# Random formulas

A random formula of size `n` has the first `n` letters as its leaves, from left to right, and
`n - 1` binary connectives; a node with connectives below it is negated with chance one in four,
but never twice.  The letters not yet used are handed from leaf to leaf, like the source of
chance.
-/
import Sentential.Formula
import Sentential.Random.Source

namespace Sentential

/-- Why there is no formula of the size asked for. -/
inductive SizeError where
  | emptySize
  | alphabetExhausted (requested available : Nat)
deriving DecidableEq

/-- The error in words. -/
def SizeError.message : SizeError → String
  | .emptySize => "a formula needs at least one variable"
  | .alphabetExhausted requested available =>
    s!"cannot generate {requested} distinct variables from an alphabet of {available}"

namespace Formula

variable {σ : Type} [Source σ]

/-- A random binary connective. -/
def drawConnective (s : σ) : BinaryConnective × σ :=
  let (i, s) := Source.upTo 3 s
  (BinaryConnective.all[i], s)

/-- Whether the next node is a negation: never right below another one. -/
def drawNegation (negated : Bool) (s : σ) : Bool × σ :=
  if negated then (false, s) else Source.oneInFour s

/-- A random formula with `budget` binary connectives, whose leaves are taken from the front of
`pool`.  There is none if the pool runs out of letters.  Below a negation, `negated` keeps a
second one from being drawn. -/
def build (budget : Nat) (negated : Bool) (pool : List Variable) (s : σ) :
    Option (Formula × List Variable × σ) :=
  match budget with
  | 0 =>
    match pool with
    | [] => none
    | letter :: pool => some (.atom (.variable letter), pool, s)
  | remaining + 1 =>
    match _drawn : drawNegation negated s with
    | (true, s) => do
      let (f, pool, s) ← build (remaining + 1) true pool s
      return (.negation f, pool, s)
    | (false, s) => do
      let (op, s) := drawConnective s
      let (share, s) := Source.upTo remaining s
      let (l, pool, s) ← build share false pool s
      let (r, pool, s) ← build (remaining - share) false pool s
      return (.binary op l r, pool, s)
termination_by (budget, (!negated).toNat)
decreasing_by
  · cases negated
    · exact Prod.Lex.right _ (by decide)
    · simp [drawNegation] at _drawn
  · exact Prod.Lex.left _ _ (by omega)
  · exact Prod.Lex.left _ _ (by omega)

/-- A random formula with `size` variables. -/
def random (size : Nat) (s : σ) : Except SizeError Formula × σ :=
  let exhausted : SizeError := .alphabetExhausted size Variable.all.length
  if size = 0 then (.error .emptySize, s)
  else if Variable.all.length < size then (.error exhausted, s)
  else
    match build (size - 1) false (Variable.all.take size) s with
    | some (f, _, s) => (.ok f, s)
    | none => (.error exhausted, s)

end Formula
end Sentential
