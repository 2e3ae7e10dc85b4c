/-
# Random words from a seed

The words of a ChaCha key stream with twelve rounds.  A 64-bit seed is stretched to the eight
words of the key by a permuted congruential generator; the blocks of the stream are numbered from
zero, and their words are used in order.  A 64-bit word is two of them, the low half first.
-/
import Sentential.Random.Source

namespace Sentential

/-- A key and the number of 32-bit words drawn so far. -/
structure KeyStream where
  key : Vector UInt32 8
  drawn : Nat

namespace KeyStream

/-! ## 1. The key -/

/-- One step of the linear congruential generator behind the key. -/
def stretchStep (state : UInt64) : UInt64 :=
  state * 6364136223846793005 + 11634580027462260723

/-- The word turned right by `k` places. -/
def rotateRight (w : UInt32) (k : UInt32) : UInt32 :=
  (w >>> k) ||| (w <<< ((32 - k) % 32))

/-- The word that a state of the generator gives. -/
def stretchWord (state : UInt64) : UInt32 :=
  rotateRight (((state >>> 18) ^^^ state) >>> 27).toUInt32 (state >>> 59).toUInt32

/-- The state after `n` steps. -/
def stretch (seed : UInt64) : Nat → UInt64
  | 0 => seed
  | n + 1 => stretchStep (stretch seed n)

/-- The key that belongs to a seed. -/
def keyOfSeed (seed : UInt64) : Vector UInt32 8 :=
  Vector.ofFn fun i => stretchWord (stretch seed (i.val + 1))

/-! ## 2. Blocks -/

/-- The sixteen words of a block. -/
abbrev Block : Type := Vector UInt32 16

/-- The word turned left by `k` places, where `k` is between 1 and 31. -/
def rotateLeft (w : UInt32) (k : UInt32) : UInt32 :=
  (w <<< k) ||| (w >>> (32 - k))

/-- Adds the word at `b` to the one at `a`, and turns what the sum changes in the word at `d`. -/
def mix (v : Block) (a b d : Fin 16) (k : UInt32) : Block :=
  let v := v.set a (v[a] + v[b])
  v.set d (rotateLeft (v[d] ^^^ v[a]) k)

/-- A quarter round on four words. -/
def quarterRound (v : Block) (a b c d : Fin 16) : Block :=
  let v := mix v a b d 16
  let v := mix v c d b 12
  let v := mix v a b d 8
  mix v c d b 7

/-- A round on the columns and one on the diagonals. -/
def doubleRound (v : Block) : Block :=
  let v := quarterRound v 0 4 8 12
  let v := quarterRound v 1 5 9 13
  let v := quarterRound v 2 6 10 14
  let v := quarterRound v 3 7 11 15
  let v := quarterRound v 0 5 10 15
  let v := quarterRound v 1 6 11 12
  let v := quarterRound v 2 7 8 13
  quarterRound v 3 4 9 14

/-- The block before its rounds: four constants, the key, the number of the block, two zeros. -/
def initial (key : Vector UInt32 8) (number : UInt64) : Block :=
  #v[0x61707865, 0x3320646e, 0x79622d32, 0x6b206574,
    key[0], key[1], key[2], key[3], key[4], key[5], key[6], key[7],
    number.toUInt32, (number >>> 32).toUInt32, 0, 0]

/-- The block with the given number: twelve rounds, then what it began with is added. -/
def block (key : Vector UInt32 8) (number : UInt64) : Block :=
  let start := initial key number
  Vector.zipWith (· + ·) (Nat.repeat doubleRound 6 start) start

/-! ## 3. The stream -/

/-- The stream that belongs to a seed. -/
def ofSeed (seed : UInt64) : KeyStream := ⟨keyOfSeed seed, 0⟩

/-- The word of the stream with the given number. -/
def word (key : Vector UInt32 8) (i : Nat) : UInt32 :=
  (block key (UInt64.ofNat (i / 16))).get ⟨i % 16, Nat.mod_lt i (by decide)⟩

/-- The next word of the stream. -/
def next (s : KeyStream) : UInt32 × KeyStream :=
  (word s.key s.drawn, { s with drawn := s.drawn + 1 })

instance : WordSource KeyStream where
  next32 := next
  next64 s :=
    let (low, s) := s.next
    let (high, s) := s.next
    (low.toUInt64 ||| (high.toUInt64 <<< 32), s)

end KeyStream
end Sentential
