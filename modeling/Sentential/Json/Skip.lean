/-
# Passing over a JSON value

A value that nobody asked for is passed over: it has to be JSON, but its numbers may be of any
size and its strings may hold escapes that stand for no character.  The brackets that are open
are kept on a stack, so values may be nested to any depth.
-/
import Sentential.Json.Number
import Sentential.Json.Text

namespace Sentential
namespace Json

/-- An open bracket. -/
inductive Bracket where
  | list
  | object
deriving DecidableEq

/-- The character that closes a bracket. -/
def Bracket.closing : Bracket → Char
  | .list => ']'
  | .object => '}'

/-- What has to come next: a value; the first element or the end of what has just been opened;
a comma or the end; a key; the colon behind a key. -/
inductive Expected where
  | value
  | first
  | next
  | key
  | colon
deriving DecidableEq

/-- What has to come next, inside which brackets, and the text that is left of `n` characters. -/
structure Progress (n : Nat) where
  expected : Expected
  brackets : List Bracket
  rest : Rest n

/-- Passes the rest of a literal name. -/
def skipLiteral (name s : List Char) : Except Fault (Rest s.length) :=
  match h : readLiteral name s with
  | .error e => .error e
  | .ok rest => .ok ⟨rest, length_le_of_readLiteral h⟩

/-- Passes a number without its sign. -/
def skipNumber (s : List Char) : Except Fault (Rest s.length) :=
  match h : readNumber s with
  | .error _ => .error .illFormed
  | .ok (_, rest) => .ok ⟨rest, Nat.le_of_lt (length_lt_of_readNumber h)⟩

/-- Passes the rest of a number without sign whose first character is `c`. -/
def skipNumberFrom (c : Char) (s : List Char) : Except Fault (Rest s.length) :=
  match h : readNumber (c :: s) with
  | .error _ => .error .illFormed
  | .ok (_, rest) => .ok ⟨rest, Nat.le_of_lt_succ (length_lt_of_readNumber h)⟩

/-- Passes a string behind its opening quote. -/
def skipString (s : List Char) : Except Fault (Rest s.length) :=
  (skipText s).map fun r => ⟨r.rest, Nat.le_of_lt r.shorter⟩

/-- Begins a value with the character `c`.  A value without brackets is passed at once. -/
def startValue (brackets : List Bracket) (c : Char) (s : List Char) :
    Except Fault (Progress s.length) :=
  if c = '[' then .ok ⟨.first, .list :: brackets, s, Nat.le_refl _⟩
  else if c = '{' then .ok ⟨.first, .object :: brackets, s, Nat.le_refl _⟩
  else
    let passed :=
      if c = '"' then skipString s
      else if c = 'n' then skipLiteral "ull".toList s
      else if c = 't' then skipLiteral "rue".toList s
      else if c = 'f' then skipLiteral "alse".toList s
      else if c = '-' then skipNumber s
      else if c.isDigit then skipNumberFrom c s
      else .error .illFormed
    passed.map fun rest => ⟨.next, brackets, rest⟩

/-- Begins a key with the character `c`. -/
def startKey (brackets : List Bracket) (c : Char) (s : List Char) :
    Except Fault (Progress s.length) :=
  if c = '"' then (skipString s).map fun rest => ⟨.colon, brackets, rest⟩
  else .error .illFormed

/-- Passes what begins with the character `c`, which is not a blank. -/
def step (expected : Expected) (brackets : List Bracket) (c : Char) (s : List Char) :
    Except Fault (Progress s.length) :=
  match expected, brackets with
  | .value, _ => startValue brackets c s
  | .key, _ => startKey brackets c s
  | .colon, _ =>
    if c = ':' then .ok ⟨.value, brackets, s, Nat.le_refl _⟩ else .error .illFormed
  | .first, b :: outer =>
    if c = b.closing then .ok ⟨.next, outer, s, Nat.le_refl _⟩
    else
      match b with
      | .list => startValue brackets c s
      | .object => startKey brackets c s
  | .next, b :: outer =>
    if c = b.closing then .ok ⟨.next, outer, s, Nat.le_refl _⟩
    else if c = ',' then
      .ok ⟨if b = .list then .value else .key, brackets, s, Nat.le_refl _⟩
    else .error .illFormed
  | .first, [] => .error .illFormed
  | .next, [] => .error .illFormed

/-- Goes on until no bracket is open and a value has been passed. -/
def skipFrom (expected : Expected) (brackets : List Bracket) (s : List Char) :
    Except Fault (Rest s.length) :=
  if expected = .next ∧ brackets = [] then .ok ⟨s, Nat.le_refl _⟩
  else
    match s with
    | [] => .error .unfinished
    | c :: cs =>
      if isSpace c then
        (skipFrom expected brackets cs).map fun r => ⟨r.val, Nat.le_succ_of_le r.property⟩
      else
        match step expected brackets c cs with
        | .error e => .error e
        | .ok p =>
          have := p.rest.property
          (skipFrom p.expected p.brackets p.rest.val).map fun r =>
            ⟨r.val, Nat.le_succ_of_le (Nat.le_trans r.property p.rest.property)⟩
termination_by s.length
decreasing_by all_goals simp <;> omega

/-- Passes one value. -/
def skipValue (s : List Char) : Except Fault (Rest s.length) :=
  skipFrom .value [] s

end Json
end Sentential
