/-
# JSON strings

Writing a text as a JSON string escapes the quote, the backslash and the control characters and
nothing else.  Reading accepts every escape of the format; a surrogate that is not half of a pair
stands for no character and is a fault.
-/
import Sentential.Json.Reading

namespace Sentential
namespace Json

/-! ## 1. Writing -/

/-- The lower-case hexadecimal digit of a number below 16. -/
def hexDigit (n : Nat) : Char :=
  if n < 10 then Char.ofNat (48 + n) else Char.ofNat (87 + n)

/-- How a character is written inside a string. -/
def encodeChar (c : Char) : List Char :=
  if c = '"' then ['\\', '"']
  else if c = '\\' then ['\\', '\\']
  else if c = '\x08' then ['\\', 'b']
  else if c = '\x0c' then ['\\', 'f']
  else if c = '\n' then ['\\', 'n']
  else if c = '\r' then ['\\', 'r']
  else if c = '\t' then ['\\', 't']
  else if c.toNat < 0x20 then
    ['\\', 'u', '0', '0', hexDigit (c.toNat / 16), hexDigit (c.toNat % 16)]
  else [c]

/-- A text as a JSON string, in quotes. -/
def encode (s : List Char) : List Char :=
  '"' :: s.flatMap encodeChar ++ ['"']

/-! ## 2. Escapes -/

/-- The value of a hexadecimal digit of either case. -/
def hexValue? (c : Char) : Option Nat :=
  if '0' ≤ c ∧ c ≤ '9' then some (c.toNat - 48)
  else if 'a' ≤ c ∧ c ≤ 'f' then some (c.toNat - 87)
  else if 'A' ≤ c ∧ c ≤ 'F' then some (c.toNat - 55)
  else none

/-- Whether the text has fewer than `n` bytes of UTF-8. -/
def fewerBytes : Nat → List Char → Bool
  | 0, _ => false
  | _ + 1, [] => true
  | n + 1, c :: cs => fewerBytes (n + 1 - c.utf8Size) cs

/-- Reads four hexadecimal digits.  The text has ended if it has fewer than four bytes left. -/
def readHex (s : List Char) : Except Fault (Read Nat s.length) :=
  if fewerBytes 4 s then .error .unfinished
  else
    match s with
    | a :: b :: c :: d :: rest =>
      match hexValue? a, hexValue? b, hexValue? c, hexValue? d with
      | some a, some b, some c, some d =>
        .ok ⟨((a * 16 + b) * 16 + c) * 16 + d, rest, by simp; omega⟩
      | _, _, _, _ => .error .illFormed
    | _ => .error .illFormed

/-- Whether the number is the first half of a surrogate pair. -/
def isHighSurrogate (n : Nat) : Bool := 0xD800 ≤ n && n ≤ 0xDBFF

/-- Whether the number is the second half of a surrogate pair. -/
def isLowSurrogate (n : Nat) : Bool := 0xDC00 ≤ n && n ≤ 0xDFFF

/-- The character of a surrogate pair. -/
def ofSurrogates (high low : Nat) : Char :=
  Char.ofNat (0x10000 + (high - 0xD800) * 0x400 + (low - 0xDC00))

/-- Reads the second half of the surrogate pair that begins with `high`. -/
def readLowSurrogate (high : Nat) : (s : List Char) → Except Fault (Read Char s.length)
  | [] => .error .unfinished
  | ['\\'] => .error .unfinished
  | '\\' :: 'u' :: s =>
    match readHex s with
    | .error e => .error e
    | .ok r =>
      if isLowSurrogate r.value then
        .ok ((r.map (ofSurrogates high)).widen (by simp; omega))
      else .error .illFormed
  | _ => .error .illFormed

/-- Reads the character that four hexadecimal digits stand for, or two times four of them. -/
def readUnicode (s : List Char) : Except Fault (Read Char s.length) :=
  match readHex s with
  | .error e => .error e
  | .ok r =>
    if isLowSurrogate r.value then .error .illFormed
    else if isHighSurrogate r.value then
      (readLowSurrogate r.value r.rest).map (Read.widen (Nat.le_of_lt r.shorter))
    else .ok (r.map Char.ofNat)

/-- The character that the letter behind a backslash stands for, apart from `u`. -/
def escaped? (c : Char) : Option Char :=
  match c with
  | '"' => some '"'
  | '\\' => some '\\'
  | '/' => some '/'
  | 'b' => some '\x08'
  | 'f' => some '\x0c'
  | 'n' => some '\n'
  | 'r' => some '\r'
  | 't' => some '\t'
  | _ => none

/-- Reads an escape behind its backslash. -/
def readEscape : (s : List Char) → Except Fault (Read Char s.length)
  | [] => .error .unfinished
  | c :: rest =>
    if c = 'u' then (readUnicode rest).map (Read.widen (by simp))
    else
      match escaped? c with
      | some d => .ok ⟨d, rest, by simp⟩
      | none => .error .illFormed

/-- Passes an escape behind its backslash: what the digits stand for does not matter. -/
def skipEscape : (s : List Char) → Except Fault (Read Unit s.length)
  | [] => .error .unfinished
  | c :: rest =>
    if c = 'u' then (readHex rest).map fun r => (r.map fun _ => ()).widen (by simp)
    else
      match escaped? c with
      | some _ => .ok ⟨(), rest, by simp⟩
      | none => .error .illFormed

/-! ## 3. Strings -/

/-- Whether a character may not stand in a string as it is. -/
def isControl (c : Char) : Bool := c.toNat < 0x20

/-- Reads a string behind its opening quote. -/
def readText (s : List Char) : Except Fault (Read (List Char) s.length) :=
  match s with
  | [] => .error .unfinished
  | c :: rest =>
    if c = '"' then .ok ⟨[], rest, by simp⟩
    else if c = '\\' then
      match readEscape rest with
      | .error e => .error e
      | .ok r =>
        have := r.shorter
        (readText r.rest).map fun t => (t.map (r.value :: ·)).widen (by simp; omega)
    else if isControl c then .error .illFormed
    else (readText rest).map fun t => (t.map (c :: ·)).widen (by simp)
termination_by s.length
decreasing_by all_goals simp <;> omega

/-- Passes a string behind its opening quote. -/
def skipText (s : List Char) : Except Fault (Read Unit s.length) :=
  match s with
  | [] => .error .unfinished
  | c :: rest =>
    if c = '"' then .ok ⟨(), rest, by simp⟩
    else if c = '\\' then
      match skipEscape rest with
      | .error e => .error e
      | .ok r =>
        have := r.shorter
        (skipText r.rest).map (Read.widen (by simp; omega))
    else if isControl c then .error .illFormed
    else (skipText rest).map (Read.widen (by simp))
termination_by s.length
decreasing_by all_goals simp <;> omega

end Json
end Sentential
