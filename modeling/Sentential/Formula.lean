/-
# Formulas

The language of the library: atoms, negations, and two formulas joined by a binary connective in
parentheses.  A formula has one canonical text (`Formula.text`), fully parenthesised and without
blanks.

* `Atom.ofChar?_eq_some_iff`: a character reads as exactly the atom that is written with it;
* `Formula.text_ne_nil`: no formula is written with nothing.
-/
import Sentential.Variable
import Sentential.Connective

namespace Sentential

/-! ## 1. Atoms and symbols -/

/-- What stands in a leaf of a formula: a variable, or one of the two constant sentences. -/
inductive Atom where
  | variable (letter : Variable)
  | constant (value : Bool)
deriving DecidableEq

namespace Atom

/-- The letter of the constant sentence with the given truth value. -/
def constantName : Bool → Char
  | true => 'T'
  | false => 'F'

/-- The constant sentence, named by its truth value, that is written with the letter `c`. -/
def constantOfChar? (c : Char) : Option Bool :=
  [true, false].find? (fun b => constantName b == c)

/-- The letter that an atom is written with. -/
def name : Atom → Char
  | .variable letter => letter.name
  | .constant b => constantName b

/-- The atom that is written with the letter `c`. -/
def ofChar? (c : Char) : Option Atom :=
  ((Variable.ofChar? c).map .variable).or ((constantOfChar? c).map .constant)

theorem ofChar?_eq_some_iff {c : Char} {a : Atom} : ofChar? c = some a ↔ a.name = c := by
  constructor
  · intro h
    rcases Option.or_eq_some_iff.mp h with h | ⟨-, h⟩
    · obtain ⟨letter, hl, rfl⟩ := Option.map_eq_some_iff.mp h
      exact Variable.ofChar?_eq_some_iff.mp hl
    · obtain ⟨b, hb, rfl⟩ := Option.map_eq_some_iff.mp h
      simpa [name] using List.find?_some hb
  · rintro rfl
    rcases a with letter | b
    · simp [ofChar?, name]
    · cases b <;> rfl

end Atom

/-- What is written at one node of a formula. -/
inductive Symbol where
  | atom (a : Atom)
  | connective (c : Connective)
deriving DecidableEq

/-- The text of a symbol. -/
def Symbol.text : Symbol → List Char
  | .atom a => [a.name]
  | .connective c => c.token

/-! ## 2. Formulas -/

/-- A formula of propositional logic. -/
inductive Formula where
  | atom (a : Atom)
  | negation (operand : Formula)
  | binary (op : BinaryConnective) (left right : Formula)
deriving DecidableEq

namespace Formula

/-- The connective at the root, if the formula is not an atom. -/
def connective? : Formula → Option Connective
  | atom _ => none
  | negation _ => some .negation
  | binary op _ _ => some (.binary op)

/-- The symbol at the root. -/
def symbol : Formula → Symbol
  | atom a => .atom a
  | negation _ => .connective .negation
  | binary op _ _ => .connective (.binary op)

/-- The canonical text of a formula, fully parenthesised and without blanks. -/
def text : Formula → List Char
  | atom a => [a.name]
  | negation f => '~' :: f.text
  | binary op l r => '(' :: l.text ++ op.token ++ r.text ++ [')']

instance : ToString Formula where
  toString f := String.ofList f.text

/-- The number of negations and parentheses around the deepest leaf. -/
def depth : Formula → Nat
  | atom _ => 0
  | negation f => f.depth + 1
  | binary _ l r => max l.depth r.depth + 1

/-- The number of leaves that are variables, each occurrence counted. -/
def variableOccurrences : Formula → Nat
  | atom (.variable _) => 1
  | atom (.constant _) => 0
  | negation f => f.variableOccurrences
  | binary _ l r => l.variableOccurrences + r.variableOccurrences

/-- The number of binary connectives in the formula. -/
def binaryCount : Formula → Nat
  | atom _ => 0
  | negation f => f.binaryCount
  | binary _ l r => l.binaryCount + r.binaryCount + 1

theorem text_ne_nil (f : Formula) : f.text ≠ [] := by
  cases f <;> simp [text]

end Formula
end Sentential
