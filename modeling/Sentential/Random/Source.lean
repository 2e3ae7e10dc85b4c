/-
# Sources of chance

What the random parts of the library ask for: a yes with chance one in four, and a number in a
range.  `Source` asks for nothing else, so what is proved of it holds for every source of chance.
`WordSource` is a source of random words, and every one of those is a source of chance.

* `Word.scaled_le`: the number made from two words is inside its range.
-/
import Sentential.Word

namespace Sentential

/-- A source of chance with the state `σ`. -/
class Source (σ : Type) where
  /-- Yes with chance one in four. -/
  oneInFour : σ → Bool × σ
  /-- A number from `0` to `n`. -/
  upTo : (n : Nat) → σ → Fin (n + 1) × σ

/-- A source of random words with the state `σ`. -/
class WordSource (σ : Type) where
  next32 : σ → UInt32 × σ
  next64 : σ → UInt64 × σ

namespace Word

/-- Whether a number from `0` to `n` made from the word `w` needs a second word: its low half is
so large that a finer fraction may carry into the high half. -/
def mayCarry (n : Nat) (w : UInt32) : Bool :=
  decide (size32 - (n + 1) < w.toNat * (n + 1) % size32)

/-- The high half of `n + 1` times the word `w`: a number from `0` to `n`. -/
def scaled (n : Nat) (w : UInt32) : Nat :=
  w.toNat * (n + 1) / size32

/-- Whether the finer fraction from the word `w'` carries into the high half. -/
def carries (n : Nat) (w w' : UInt32) : Bool :=
  decide (size32 ≤ w.toNat * (n + 1) % size32 + w'.toNat * (n + 1) / size32)

theorem scaled_le (n : Nat) (w : UInt32) : scaled n w ≤ n := by
  have hw : w.toNat ≤ size32 - 1 := Nat.le_sub_one_of_lt w.toNat_lt
  have hp : w.toNat * (n + 1) ≤ (size32 - 1) * (n + 1) := Nat.mul_le_mul_right _ hw
  have hs : size32 = 4294967296 := rfl
  simp only [scaled, hs] at *
  omega

theorem scaled_succ_le {n : Nat} {w : UInt32} (h : mayCarry n w = true) : scaled n w + 1 ≤ n := by
  have hw : w.toNat ≤ size32 - 1 := Nat.le_sub_one_of_lt w.toNat_lt
  have hp : w.toNat * (n + 1) ≤ (size32 - 1) * (n + 1) := Nat.mul_le_mul_right _ hw
  have hs : size32 = 4294967296 := rfl
  simp only [mayCarry, decide_eq_true_eq, scaled, hs] at *
  omega

end Word

/-- A number from `0` to `n` is the high half of a word times `n + 1`; a second word decides
whether it is one more.  A 64-bit word in the lowest quarter of its range says yes. -/
instance {σ : Type} [WordSource σ] : Source σ where
  oneInFour s :=
    let (w, s) := WordSource.next64 s
    (decide (w.toNat < Word.quarter64), s)
  upTo n s :=
    let (w, s) := WordSource.next32 s
    if h : Word.mayCarry n w then
      let (w', s) := WordSource.next32 s
      if Word.carries n w w' then
        (⟨Word.scaled n w + 1, Nat.lt_succ_of_le (Word.scaled_succ_le h)⟩, s)
      else (⟨Word.scaled n w, Nat.lt_succ_of_le (Word.scaled_le n w)⟩, s)
    else (⟨Word.scaled n w, Nat.lt_succ_of_le (Word.scaled_le n w)⟩, s)

end Sentential
