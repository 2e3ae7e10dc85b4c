/-
# The connective at the start of a text

Finds which connective a text begins with by looking at its first two bytes and, failing that, at
its first character.  The two bytes are taken only where the cut falls between characters, so a
character that takes several bytes is never split.

* `cutBytes_append`: what is cut off and what is left are the text.
-/
import Sentential.Connective

namespace Sentential

/-- Cuts a text behind its first `n` bytes of UTF-8.  There is no such cut when the text is
shorter, or when the place lies inside a character. -/
def cutBytes : Nat → List Char → Option (List Char × List Char)
  | 0, s => some ([], s)
  | _ + 1, [] => none
  | n + 1, c :: cs =>
    if c.utf8Size ≤ n + 1 then
      (cutBytes (n + 1 - c.utf8Size) cs).map (fun (front, back) => (c :: front, back))
    else none

theorem cutBytes_append {n : Nat} {s front back : List Char}
    (h : cutBytes n s = some (front, back)) : front ++ back = s := by
  induction s generalizing n front with
  | nil =>
    cases n with
    | zero => simp_all [cutBytes]
    | succ n => simp [cutBytes] at h
  | cons c cs ih =>
    cases n with
    | zero => simp_all [cutBytes]
    | succ n =>
      rw [cutBytes] at h
      split at h
      · obtain ⟨⟨front', back'⟩, h', hp⟩ := Option.map_eq_some_iff.mp h
        obtain ⟨rfl, rfl⟩ := Prod.mk.inj hp
        simp [ih h']
      · simp at h

namespace Connective

/-- The connective that takes the first two bytes of the text, and what follows it. -/
def leadingTwo? (s : List Char) : Option (Connective × List Char) :=
  (cutBytes 2 s).bind fun (token, rest) => (ofTokenOfLength? 2 token).map (·, rest)

/-- The connective that is the first character of the text, and what follows it. -/
def leadingOne? : List Char → Option (Connective × List Char)
  | [] => none
  | c :: rest => (ofTokenOfLength? 1 [c]).map (·, rest)

/-- The connective that the text begins with, and what follows its token.  The longer tokens are
tried first. -/
def leading? (s : List Char) : Option (Connective × List Char) :=
  (leadingTwo? s).or (leadingOne? s)

end Connective
end Sentential
