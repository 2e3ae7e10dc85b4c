/-
# Reading JSON from left to right

What the readers of JSON share.  A reader gives its value with the text behind it and a proof that
this text is shorter, or the first fault it meets.
-/
namespace Sentential
namespace Json

/-- What is wrong with a JSON text: it ends too early, it breaks the grammar, or it describes
something other than what is asked for. -/
inductive Fault where
  | unfinished
  | illFormed
  | unsuitable
deriving DecidableEq

/-- A value read from a text of length `n`, and the text behind it. -/
structure Read (α : Type) (n : Nat) where
  value : α
  rest : List Char
  shorter : rest.length < n

namespace Read

variable {α β : Type} {n m : Nat}

/-- The same reading with its value changed. -/
def map (f : α → β) (r : Read α n) : Read β n :=
  ⟨f r.value, r.rest, r.shorter⟩

/-- The same reading as one of a longer text. -/
def widen (h : n ≤ m) (r : Read α n) : Read α m :=
  ⟨r.value, r.rest, Nat.lt_of_lt_of_le r.shorter h⟩

end Read

/-- What is left of a text of length `n`, or all of it. -/
abbrev Rest (n : Nat) : Type := { rest : List Char // rest.length ≤ n }

/-- The blanks that may stand between tokens. -/
def isSpace (c : Char) : Bool :=
  c == ' ' || c == '\t' || c == '\n' || c == '\r'

/-- The text behind the blanks at its start. -/
def skipSpace (s : List Char) : List Char := s.dropWhile isSpace

theorem length_skipSpace_le (s : List Char) : (skipSpace s).length ≤ s.length :=
  (List.dropWhile_sublist isSpace).length_le

/-- Reads the rest of a literal name such as `null`. -/
def readLiteral : List Char → List Char → Except Fault (List Char)
  | [], s => .ok s
  | _ :: _, [] => .error .unfinished
  | c :: cs, d :: s => if d = c then readLiteral cs s else .error .illFormed

theorem length_le_of_readLiteral {name s rest : List Char}
    (h : readLiteral name s = .ok rest) : rest.length ≤ s.length := by
  induction name generalizing s with
  | nil => simp_all [readLiteral]
  | cons c cs ih =>
    cases s with
    | nil => simp [readLiteral] at h
    | cons d s =>
      rw [readLiteral] at h
      split at h
      · exact Nat.le_succ_of_le (ih h)
      · simp at h

end Json
end Sentential
