/-
# Records as lines of JSON

A record is written as an object with the keys `prompt` and `formula`.  It is read from such an
object, whose keys may come in any order and beside others, or from a list of the two texts.  A
line is read from left to right, and the first fault decides.
-/
import Sentential.Json.Skip
import Sentential.Record

namespace Sentential
namespace Record

open Json

/-! ## 1. Writing -/

/-- The line of a record, without a line feed. -/
def line (r : Record) : List Char :=
  "\x7b\"prompt\":".toList ++ encode r.prompt.toList ++ ",\"formula\":".toList ++
    encode r.formula.toList ++ ['}']

/-! ## 2. Values -/

/-- What is wrong with a value, begun by the character `c`, that is not of the kind asked for: it
may be ill-formed itself.  Of a value in brackets only the first bracket is looked at. -/
def faultOf (c : Char) (s : List Char) : Fault :=
  let literal (name : String) : Fault :=
    match readLiteral name.toList s with
    | .error e => e
    | .ok _ => .unsuitable
  let number (s : List Char) : Fault :=
    match readNumber s with
    | .error e => e
    | .ok (d, _) => if d.overflows then .illFormed else .unsuitable
  if c = 'n' then literal "ull"
  else if c = 't' then literal "rue"
  else if c = 'f' then literal "alse"
  else if c = '-' then number s
  else if c.isDigit then number (c :: s)
  else if c = '"' then
    match readText s with
    | .error e => e
    | .ok _ => .unsuitable
  else if c = '[' ∨ c = '{' then .unsuitable
  else .illFormed

/-- Reads a string that begins with the character `c`. -/
def readString (c : Char) (s : List Char) : Except Fault (Read String s.length) :=
  if c = '"' then (readText s).map (Read.map String.ofList)
  else .error (faultOf c s)

/-- Passes the blanks and the colon behind a key. -/
def passColon (s : List Char) : Except Fault (Rest s.length) :=
  match h : skipSpace s with
  | [] => .error .unfinished
  | c :: rest =>
    if c = ':' then
      .ok ⟨rest, by have := length_skipSpace_le s; rw [h] at this; simp at this; omega⟩
    else .error .illFormed

/-! ## 3. Records -/

/-- Reads a record from the list of its two texts, behind the opening bracket. -/
def readList (s : List Char) : Except Fault (Record × List Char) :=
  match skipSpace s with
  | [] => .error .unfinished
  | ']' :: _ => .error .unsuitable
  | c :: s => do
    let prompt ← readString c s
    match skipSpace prompt.rest with
    | [] => .error .unfinished
    | ']' :: _ => .error .unsuitable
    | ',' :: s =>
      match skipSpace s with
      | [] => .error .unfinished
      | ']' :: _ => .error .illFormed
      | c :: s =>
        let formula ← readString c s
        match skipSpace formula.rest with
        | [] => .error .unfinished
        | ']' :: rest => .ok (⟨prompt.value, formula.value⟩, rest)
        | _ => .error .illFormed
    | _ => .error .illFormed

/-- The fields of a record that have been read. -/
structure Fields where
  prompt? : Option String
  formula? : Option String

/-- Reads the value behind a key and its colon, and keeps it if the key is one of a record. -/
def readField (fields : Fields) (key : List Char) (s : List Char) :
    Except Fault (Fields × Rest s.length) :=
  let read : Except Fault (String × Rest s.length) :=
    match h : skipSpace s with
    | [] => .error .unfinished
    | c :: rest =>
      (readString c rest).map fun r =>
        (r.value, ⟨r.rest, by
          have h1 := length_skipSpace_le s
          have h2 := r.shorter
          rw [h] at h1
          simp at h1
          omega⟩)
  if key = "prompt".toList then
    read.map fun (text, rest) => ({ fields with prompt? := some text }, rest)
  else if key = "formula".toList then
    read.map fun (text, rest) => ({ fields with formula? := some text }, rest)
  else (skipValue s).map fun rest => (fields, rest)

/-- Whether a key has been read before. -/
def Fields.has (fields : Fields) (key : List Char) : Bool :=
  (key == "prompt".toList && fields.prompt?.isSome) ||
    (key == "formula".toList && fields.formula?.isSome)

/-- The record, if both fields are there. -/
def Fields.toRecord (fields : Fields) : Except Fault Record :=
  match fields.prompt?, fields.formula? with
  | some prompt, some formula => .ok ⟨prompt, formula⟩
  | _, _ => .error .unsuitable

/-- Reads a key, behind its opening quote, with its value. -/
def readMember (fields : Fields) (s : List Char) : Except Fault (Fields × Rest s.length) := do
  let key ← readText s
  if fields.has key.value then .error .unsuitable
  else
    let behind ← passColon key.rest
    let (fields, rest) ← readField fields key.value behind.val
    have := key.shorter
    have := behind.property
    have := rest.property
    .ok (fields, ⟨rest.val, by omega⟩)

/-- Finds the next member of an object.  The value says whether there is one; if so the rest is
behind the opening quote of its key, otherwise behind the closing brace. -/
def nextMember (first : Bool) (s : List Char) : Except Fault (Read Bool s.length) :=
  match h : skipSpace s with
  | [] => .error .unfinished
  | c :: rest =>
    have hr : rest.length < s.length := by
      have := length_skipSpace_le s
      rw [h] at this
      exact this
    if c = '}' then .ok ⟨false, rest, hr⟩
    else if first then
      if c = '"' then .ok ⟨true, rest, hr⟩ else .error .illFormed
    else if c = ',' then
      match h' : skipSpace rest with
      | [] => .error .unfinished
      | c :: rest' =>
        if c = '"' then
          .ok ⟨true, rest', by
            have := length_skipSpace_le rest
            rw [h'] at this
            simp at this
            omega⟩
        else .error .illFormed
    else .error .illFormed

/-- Reads the members of an object up to its end. -/
def readMembers (first : Bool) (fields : Fields) (s : List Char) :
    Except Fault (Record × List Char) :=
  match nextMember first s with
  | .error e => .error e
  | .ok found =>
    if found.value then
      match readMember fields found.rest with
      | .error e => .error e
      | .ok (fields, rest) =>
        have := found.shorter
        have := rest.property
        readMembers false fields rest.val
    else fields.toRecord.map fun r => (r, found.rest)
termination_by s.length

/-- Accepts a record behind which nothing but blanks stands. -/
def alone (r : Record) (rest : List Char) : Except Fault Record :=
  if (skipSpace rest).isEmpty then .ok r else .error .illFormed

/-- The record that a line holds. -/
def ofLine (s : List Char) : Except Fault Record :=
  match skipSpace s with
  | [] => .error .unfinished
  | '[' :: s => readList s >>= fun (r, rest) => alone r rest
  | '{' :: s => readMembers true ⟨none, none⟩ s >>= fun (r, rest) => alone r rest
  | c :: s => .error (faultOf c s)

end Record
end Sentential
