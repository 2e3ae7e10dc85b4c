/-
# Formulas in English

A variable is read as a quoted sentence such as `'Tea is Hot'`, or as its letter if it has no
meaning; a compound sentence stands in parentheses inside another one, and without them on its
own.
-/
import Sentential.Formula
import Sentential.Variable.Map

namespace Sentential

/-- A simple sentence, "noun is adjective". -/
structure Proposition where
  noun : String
  adjective : String
deriving DecidableEq

/-- The sentence in words. -/
def Proposition.text (s : Proposition) : String :=
  s.noun ++ " is " ++ s.adjective

/-- The English meaning of some of the variables. -/
abbrev Meaning : Type := VariableMap Proposition

namespace English

/-- How an atom is read. -/
def atomPhrase (m : Meaning) : Atom → List Char
  | .variable letter =>
    match m.get? letter with
    | some s => '\x27' :: s.text.toList ++ ['\x27']
    | none => [letter.name]
  | .constant true => "true".toList
  | .constant false => "false".toList

/-- The phrase of a formula as it stands inside another one: in parentheses, unless it is an
atom. -/
def enclosed (f : Formula) (phrase : List Char) : List Char :=
  match f with
  | .atom _ => phrase
  | _ => '(' :: phrase ++ [')']

/-- Two phrases joined by a binary connective. -/
def joined (l r : List Char) : BinaryConnective → List Char
  | .conjunction => l ++ " and ".toList ++ r
  | .disjunction => l ++ " or ".toList ++ r
  | .conditional => "If ".toList ++ l ++ ", then ".toList ++ r
  | .biconditional => l ++ " if and only if ".toList ++ r

/-- The phrase of a formula on its own. -/
def phrase (m : Meaning) : Formula → List Char
  | .atom a => atomPhrase m a
  | .negation f => enclosed f (phrase m f) ++ " is false".toList
  | .binary op l r => joined (enclosed l (phrase m l)) (enclosed r (phrase m r)) op

/-- The formula as an English sentence. -/
def sentence (m : Meaning) (f : Formula) : String :=
  String.ofList (phrase m f)

end English
end Sentential
