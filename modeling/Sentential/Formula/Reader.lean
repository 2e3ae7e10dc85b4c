/-
# Reading a formula off the front of a text

    formula  ::=  atom  |  '~' formula  |  '(' formula connective formula ')'

A reader takes a text and the number of nestings that are open around it.  Its `Outcome` always
says where it stopped and how many nestings were open there, whether it read something or not:
the counter is carried along, and a choice between readers puts the text back but not the counter.

A reader fails in two ways.  After `noMatch` another reader may be tried at the same place; after
`failure` none may, because a token has been read that settles what must follow.

* `Outcome.ok` carries a proof that something was read, so the recursion of `formula` ends
  because the text becomes shorter.
-/
import Sentential.Formula
import Sentential.Formula.SyntaxError

namespace Sentential
namespace Reader

/-! ## 1. Outcomes -/

/-- What became of reading a value of type `α` from a text of length `n`.  Each case ends with
the text that is left and the number of open nestings. -/
inductive Outcome (α : Type) (n : Nat) where
  | ok (value : α) (rest : List Char) (depth : Nat) (shorter : rest.length < n)
  | noMatch (error : SyntaxError) (rest : List Char) (depth : Nat)
  | failure (error : SyntaxError) (rest : List Char) (depth : Nat)

namespace Outcome

variable {α β : Type} {n : Nat}

/-- The text that is left. -/
def rest : Outcome α n → List Char
  | ok _ rest _ _ => rest
  | noMatch _ rest _ => rest
  | failure _ rest _ => rest

/-- The number of open nestings. -/
def depth : Outcome α n → Nat
  | ok _ _ depth _ => depth
  | noMatch _ _ depth => depth
  | failure _ _ depth => depth

/-- The outcome with its value changed. -/
def map (f : α → β) : Outcome α n → Outcome β n
  | ok a rest depth h => ok (f a) rest depth h
  | noMatch e rest depth => noMatch e rest depth
  | failure e rest depth => failure e rest depth

/-- The outcome with the number of open nestings changed. -/
def mapDepth (f : Nat → Nat) : Outcome α n → Outcome α n
  | ok a rest depth h => ok a rest (f depth) h
  | noMatch e rest depth => noMatch e rest (f depth)
  | failure e rest depth => failure e rest (f depth)

/-- Goes on reading where the first reader stopped. -/
def andThen (o : Outcome α n)
    (next : α → (rest : List Char) → rest.length < n → Nat → Outcome β rest.length) :
    Outcome β n :=
  match o with
  | ok a rest depth h =>
    match next a rest h depth with
    | ok b rest' depth' h' => ok b rest' depth' (Nat.lt_trans h' h)
    | noMatch e rest' depth' => noMatch e rest' depth'
    | failure e rest' depth' => failure e rest' depth'
  | noMatch e rest depth => noMatch e rest depth
  | failure e rest depth => failure e rest depth

/-- Tries another reader at the same place.  It is given the counter that the first one left. -/
def orElse (o : Outcome α n) (other : Nat → Outcome α n) : Outcome α n :=
  match o with
  | noMatch _ _ depth => other depth
  | ok a rest depth h => ok a rest depth h
  | failure e rest depth => failure e rest depth

/-- Rules out that another reader is tried. -/
def committed : Outcome α n → Outcome α n
  | noMatch e rest depth => failure e rest depth
  | ok a rest depth h => ok a rest depth h
  | failure e rest depth => failure e rest depth

/-- Replaces the error. -/
def expecting (error : SyntaxError) : Outcome α n → Outcome α n
  | ok a rest depth h => ok a rest depth h
  | noMatch _ rest depth => noMatch error rest depth
  | failure _ rest depth => failure error rest depth

/-- Keeps a value that `f` accepts; otherwise nothing has been read of `text`. -/
def refine (text : List Char) (f : α → Option β) : Outcome α n → Outcome β n
  | ok a rest depth h =>
    match f a with
    | some b => ok b rest depth h
    | none => noMatch (.unexpected text) text depth
  | noMatch e rest depth => noMatch e rest depth
  | failure e rest depth => failure e rest depth

end Outcome

/-! ## 2. Tokens -/

/-- Reads the first `k + 1` characters. -/
def take (k : Nat) (text : List Char) (depth : Nat) : Outcome (List Char) text.length :=
  if h : k < text.length then
    .ok (text.take (k + 1)) (text.drop (k + 1)) depth (by simp; omega)
  else .noMatch (.unexpected text) text depth

/-- Reads the character `c`. -/
def token (c : Char) : (text : List Char) → Nat → Outcome Unit text.length
  | [], depth => .noMatch (.unexpected []) [] depth
  | d :: rest, depth =>
    if d = c then .ok () rest depth (Nat.lt_succ_self _)
    else .noMatch (.unexpected (d :: rest)) (d :: rest) depth

/-- Reads an atom. -/
def atom : (text : List Char) → Nat → Outcome Formula text.length
  | [], depth => .noMatch (.unexpected []) [] depth
  | c :: rest, depth =>
    match Atom.ofChar? c with
    | some a => .ok (.atom a) rest depth (Nat.lt_succ_self _)
    | none => .noMatch (.unexpected (c :: rest)) (c :: rest) depth

/-- Reads a connective, the longer tokens first. -/
def connective (text : List Char) (depth : Nat) : Outcome Connective text.length :=
  ((take 1 text depth).refine text (Connective.ofTokenOfLength? 2)).orElse fun depth =>
    (take 0 text depth).refine text (Connective.ofTokenOfLength? 1)

/-- Reads a binary connective. -/
def binaryConnective (text : List Char) (depth : Nat) : Outcome BinaryConnective text.length :=
  ((connective text depth).refine text Connective.binary?).expecting
    (.missingConnective (String.ofList text))

/-- Reads the parenthesis that ends a formula. -/
def closing (text : List Char) (depth : Nat) : Outcome Unit text.length :=
  (token ')' text depth).expecting (.unclosedParenthesis (String.ofList text))

/-! ## 3. Formulas -/

/-- Reads with one more nesting open, unless that is one too many. -/
def nested {α : Type} {n : Nat} (text : List Char) (depth : Nat) (body : Nat → Outcome α n) :
    Outcome α n :=
  if maxDepth ≤ depth then .failure (.tooDeep (String.ofList text)) text depth
  else (body (depth + 1)).mapDepth (· - 1)

/-- A reader for the formulas inside `text`. -/
abbrev Inner (text : List Char) : Type :=
  (rest : List Char) → rest.length < text.length → Nat → Outcome Formula rest.length

/-- Reads a negation. -/
def negation (text : List Char) (depth : Nat) (inner : Inner text) :
    Outcome Formula text.length :=
  (token '~' text depth).andThen fun _ rest h depth =>
    (nested rest depth fun depth => (inner rest h depth).map .negation).committed

/-- Reads two formulas joined by a binary connective in parentheses. -/
def parenthesised (text : List Char) (depth : Nat) (inner : Inner text) :
    Outcome Formula text.length :=
  (token '(' text depth).andThen fun _ rest h depth =>
    (nested rest depth fun depth =>
      (inner rest h depth).andThen fun left rest₁ h₁ depth =>
      (binaryConnective rest₁ depth).andThen fun op rest₂ h₂ depth =>
      (inner rest₂ (by omega) depth).andThen fun right rest₃ _ depth =>
      (closing rest₃ depth).map fun _ => .binary op left right).committed

/-- Reads a formula. -/
def formula (text : List Char) (depth : Nat) : Outcome Formula text.length :=
  (atom text depth).orElse fun depth =>
  (negation text depth fun rest _ depth => formula rest depth).orElse fun depth =>
  parenthesised text depth fun rest _ depth => formula rest depth
termination_by text.length

end Reader
end Sentential
