/-
# JSON numbers

Reads a number as a significand of at most 64 bits and a power of ten, and says whether a
binary64 can hold it.  Digits that would make the significand longer only count towards the
power.
-/
import Sentential.Json.Reading
import Sentential.Word

namespace Sentential
namespace Json

/-- The number `significand * 10 ^ exponent`, without its sign. -/
structure Decimal where
  significand : Nat
  exponent : Int

namespace Decimal

/-- The nearest natural number with at most 53 significant bits; halfway between two, the one
whose last bit is zero. -/
def round53 (n : Nat) : Nat :=
  let drop := n.log2 - 52
  let unit := 1 <<< drop
  let q := n / unit
  let r := n % unit
  if unit < 2 * r ∨ (unit = 2 * r ∧ q % 2 = 1) then (q + 1) * unit else q * unit

/-- The least number that rounds to nothing a binary64 can hold: half a unit above the largest. -/
def beyond : Nat := (1 <<< 1024) - (1 <<< 970)

/-- Whether the product of the significand and the power of ten, both rounded, is beyond the
largest binary64. -/
def overflows (d : Decimal) : Bool :=
  d.significand != 0 && decide (0 ≤ d.exponent) &&
    (decide (308 < d.exponent) ||
      decide (beyond ≤ round53 d.significand * round53 (Nat.pow 10 d.exponent.toNat)))

end Decimal

/-- The digits at the start of a text, and what follows them. -/
def digits (s : List Char) : List Char × List Char :=
  (s.takeWhile Char.isDigit, s.dropWhile Char.isDigit)

/-- Appends digits to a significand as long as it fits in 64 bits.  Also counts them. -/
def absorb : Nat → List Char → Nat × Nat
  | n, [] => (n, 0)
  | n, c :: cs =>
    let next := n * 10 + (c.toNat - 48)
    if Word.size64 ≤ next then (n, 0)
    else
      let (m, used) := absorb next cs
      (m, used + 1)

/-- The number that digits stand for. -/
def natOfDigits (cs : List Char) : Nat :=
  cs.foldl (fun n c => n * 10 + (c.toNat - 48)) 0

/-- Reads one or more digits. -/
def readDigits : List Char → Except Fault (List Char × List Char)
  | [] => .error .unfinished
  | c :: cs => if c.isDigit then .ok (digits (c :: cs)) else .error .illFormed

/-- Whether a sign in front of an exponent is a minus, and what follows the sign. -/
def readSign : List Char → Bool × List Char
  | '-' :: cs => (true, cs)
  | '+' :: cs => (false, cs)
  | cs => (false, cs)

/-- Reads the power of ten behind a number, if one is given. -/
def readExponent : List Char → Except Fault (Int × List Char)
  | [] => .ok (0, [])
  | c :: cs =>
    if c = 'e' ∨ c = 'E' then
      match readDigits (readSign cs).2 with
      | .error e => .error e
      | .ok (ds, rest) =>
        .ok (if (readSign cs).1 then -(natOfDigits ds : Int) else natOfDigits ds, rest)
    else .ok (0, c :: cs)

/-- Reads the digits behind the point, if there is one. -/
def readFraction : List Char → Except Fault (List Char × List Char)
  | '.' :: cs => readDigits cs
  | cs => .ok ([], cs)

/-- Reads the digits in front of the point.  A zero there is alone. -/
def readWhole : List Char → Except Fault (List Char × List Char)
  | [] => .error .unfinished
  | '0' :: cs =>
    match cs with
    | d :: _ => if d.isDigit then .error .illFormed else .ok (['0'], cs)
    | [] => .ok (['0'], [])
  | cs => readDigits cs

/-- Reads a number without its sign. -/
def readNumber (s : List Char) : Except Fault (Decimal × List Char) :=
  match readWhole s with
  | .error e => .error e
  | .ok (whole, s) =>
    match readFraction s with
    | .error e => .error e
    | .ok (fraction, s) =>
      match readExponent s with
      | .error e => .error e
      | .ok (power, s) =>
        let (n, used) := absorb 0 whole
        let (n, used') := absorb n fraction
        .ok (⟨n, power + (whole.length - used : Nat) - used'⟩, s)

theorem length_lt_of_readDigits {s ds rest : List Char} (h : readDigits s = .ok (ds, rest)) :
    rest.length < s.length := by
  cases s with
  | nil => simp [readDigits] at h
  | cons c cs =>
    rw [readDigits] at h
    split at h
    · next hc =>
      simp only [digits, Except.ok.injEq, Prod.mk.injEq, List.dropWhile_cons, hc, if_true] at h
      have := (List.dropWhile_sublist Char.isDigit (l := cs)).length_le
      rw [h.2] at this
      simp
      omega
    · simp at h

theorem length_readSign_le (s : List Char) : (readSign s).2.length ≤ s.length := by
  unfold readSign
  split <;> simp

theorem length_le_of_readExponent {s rest : List Char} {n : Int}
    (h : readExponent s = .ok (n, rest)) : rest.length ≤ s.length := by
  cases s with
  | nil => simp_all [readExponent]
  | cons c cs =>
    rw [readExponent] at h
    split at h
    · split at h
      · simp at h
      · next hd =>
        have h1 := length_lt_of_readDigits hd
        have h2 := length_readSign_le cs
        simp only [Except.ok.injEq, Prod.mk.injEq] at h
        obtain ⟨-, rfl⟩ := h
        simp
        omega
    · simp_all

theorem length_le_of_readFraction {s ds rest : List Char}
    (h : readFraction s = .ok (ds, rest)) : rest.length ≤ s.length := by
  unfold readFraction at h
  split at h
  · have := length_lt_of_readDigits h
    simp
    omega
  · simp_all

theorem length_lt_of_readWhole {s ds rest : List Char} (h : readWhole s = .ok (ds, rest)) :
    rest.length < s.length := by
  unfold readWhole at h
  split at h
  · simp at h
  · split at h
    · split at h
      · simp at h
      · simp_all
    · obtain ⟨-, rfl⟩ := Prod.mk.inj (Except.ok.inj h)
      simp
  · exact length_lt_of_readDigits h

theorem length_lt_of_readNumber {s rest : List Char} {d : Decimal}
    (h : readNumber s = .ok (d, rest)) : rest.length < s.length := by
  unfold readNumber at h
  split at h
  · simp at h
  · next hw =>
    split at h
    · simp at h
    · next hf =>
      split at h
      · simp at h
      · next he =>
        have h1 := length_lt_of_readWhole hw
        have h2 := length_le_of_readFraction hf
        have h3 := length_le_of_readExponent he
        simp only [Except.ok.injEq, Prod.mk.injEq] at h
        obtain ⟨-, rfl⟩ := h
        omega

end Json
end Sentential
