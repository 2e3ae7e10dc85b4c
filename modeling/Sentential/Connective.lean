/-
# Connectives

Negation and the four binary connectives: the tokens they are written with, the truth functions
they stand for, and the look-up of a connective by its token.

* `Connective.ofToken?_eq_some_iff`: a token names exactly the connective that is written with it.
-/
namespace Sentential

/-- The connectives that join two formulas. -/
inductive BinaryConnective where
  | conjunction
  | disjunction
  | conditional
  | biconditional
deriving DecidableEq

/-- The connectives of the language. -/
inductive Connective where
  | negation
  | binary (op : BinaryConnective)
deriving DecidableEq

namespace BinaryConnective

/-- Every binary connective. -/
def all : List BinaryConnective :=
  [.conjunction, .disjunction, .conditional, .biconditional]

/-- What is written between the two operands. -/
def token : BinaryConnective → List Char
  | .conjunction => ['&']
  | .disjunction => ['|']
  | .conditional => ['-', '>']
  | .biconditional => ['<', '>']

/-- The truth function of a binary connective. -/
def apply : BinaryConnective → Bool → Bool → Bool
  | .conjunction, l, r => l && r
  | .disjunction, l, r => l || r
  | .conditional, l, r => !l || r
  | .biconditional, l, r => l == r

end BinaryConnective

namespace Connective

/-- Every connective, negation first. -/
def all : List Connective :=
  .negation :: BinaryConnective.all.map .binary

/-- What the connective is written with. -/
def token : Connective → List Char
  | .negation => ['~']
  | .binary op => op.token

/-- The number of formulas that the connective takes. -/
def arity : Connective → Nat
  | .negation => 1
  | .binary _ => 2

/-- The connective, if it joins two formulas. -/
def binary? : Connective → Option BinaryConnective
  | .negation => none
  | .binary op => some op

/-- The connective written with `token`. -/
def ofToken? (token : List Char) : Option Connective :=
  all.find? (fun c => c.token == token)

/-- The connective written with `token`, if that is `n` characters long. -/
def ofTokenOfLength? (n : Nat) (token : List Char) : Option Connective :=
  if token.length = n then ofToken? token else none

theorem mem_all (c : Connective) : c ∈ all := by
  cases c with
  | negation => decide
  | binary op => cases op <;> decide

@[simp] theorem ofToken?_token (c : Connective) : ofToken? c.token = some c := by
  cases c with
  | negation => rfl
  | binary op => cases op <;> rfl

theorem ofToken?_eq_some_iff {token : List Char} {c : Connective} :
    ofToken? token = some c ↔ c.token = token := by
  constructor
  · intro h
    simpa using List.find?_some h
  · rintro rfl
    exact ofToken?_token c

end Connective
end Sentential
