/-
# Random words from a list

The 64-bit words of a list are used in order and from the start again.  A 32-bit word is the low
half of the next word.
-/
import Sentential.Random.Source

namespace Sentential

/-- A list of random words and the number of words drawn so far. -/
structure WordList where
  words : List UInt64
  drawn : Nat

namespace WordList

/-- The list before the first draw. -/
def ofList (words : List UInt64) : WordList := ⟨words, 0⟩

/-- The next word.  A list without words gives zeros. -/
def next (s : WordList) : UInt64 × WordList :=
  ((s.words[s.drawn % s.words.length]?).getD 0, { s with drawn := s.drawn + 1 })

instance : WordSource WordList where
  next32 s :=
    let (w, s) := s.next
    (w.toUInt32, s)
  next64 := next

end WordList
end Sentential
