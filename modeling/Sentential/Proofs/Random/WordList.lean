/-
# Every draw can come out every way

The words of a list decide the draws that are made from it, one after another.  For each outcome of
a draw there is a word that gives it, without a second word to decide about a carry.

* `Word.scaled_first`: the least word whose share of a range is the number wanted;
* `WordList.exists_gives_oneInFour`, `WordList.exists_gives_upTo`: a word for each outcome.
-/
import Sentential.Random.WordList

namespace Sentential

/-! ## 1. Words for numbers -/

namespace Word

/-- The least word that is scaled to `i` in the range from `0` to `n`. -/
def first (n i : Nat) : Nat := (i * size32 + n) / (n + 1)

/-- Scaling the least word leaves less than one step of the range. -/
theorem first_mul_bounds (n i : Nat) :
    i * size32 ≤ first n i * (n + 1) ∧ first n i * (n + 1) ≤ i * size32 + n := by
  have hdiv := Nat.div_add_mod (i * size32 + n) (n + 1)
  have hmod : (i * size32 + n) % (n + 1) < n + 1 := Nat.mod_lt _ (Nat.succ_pos n)
  rw [Nat.mul_comm, ← first] at hdiv
  omega

theorem first_lt {n i : Nat} (hn : n < size32) (hi : i ≤ n) : first n i < size32 := by
  have hmul : i * size32 ≤ n * size32 := Nat.mul_le_mul_right size32 hi
  rw [first, Nat.div_lt_iff_lt_mul (Nat.succ_pos n), Nat.mul_comm size32, Nat.succ_mul]
  omega

/-- The low half is smaller than the range, so nothing is left to a second word. -/
theorem first_mul_div_mod {n : Nat} (hn : n < size32) (i : Nat) :
    first n i * (n + 1) / size32 = i ∧ first n i * (n + 1) % size32 ≤ n := by
  obtain ⟨hlow, hhigh⟩ := first_mul_bounds n i
  have hdiv : first n i * (n + 1) / size32 = i := by
    rw [Nat.div_eq_iff (by decide)]
    omega
  have hmod := Nat.div_add_mod (first n i * (n + 1)) size32
  rw [hdiv, Nat.mul_comm] at hmod
  exact ⟨hdiv, by omega⟩

theorem scaled_first {n i : Nat} (hn : 2 * n < size32) (hi : i ≤ n) :
    scaled n (UInt32.ofNat (first n i)) = i ∧
      mayCarry n (UInt32.ofNat (first n i)) = false := by
  have hword : (UInt32.ofNat (first n i)).toNat = first n i :=
    UInt32.toNat_ofNat_of_lt (first_lt (by omega) hi)
  obtain ⟨hdiv, hmod⟩ := first_mul_div_mod (n := n) (by omega) i
  rw [scaled, mayCarry, hword]
  refine ⟨hdiv, decide_eq_false ?_⟩
  omega

end Word

/-! ## 2. Words that are still to come -/

namespace WordList

/-- The words come next, before the list begins again. -/
def Ahead (s : WordList) (words : List UInt64) : Prop :=
  ∃ used, s.words = used ++ words ∧ s.drawn = used.length

theorem ahead_ofList (words : List UInt64) : (ofList words).Ahead words :=
  ⟨[], rfl, rfl⟩

theorem Ahead.next {s : WordList} {w : UInt64} {words : List UInt64} (h : s.Ahead (w :: words)) :
    ∃ s', s.next = (w, s') ∧ s'.Ahead words := by
  obtain ⟨used, hwords, hdrawn⟩ := h
  have hmod : s.drawn % s.words.length = used.length := by
    rw [hdrawn, hwords]
    exact Nat.mod_eq_of_lt (by simp)
  refine ⟨{ s with drawn := s.drawn + 1 }, ?_, used ++ [w], ?_, ?_⟩
  · rw [WordList.next, hmod, hwords, List.getElem?_append_right (Nat.le_refl _), Nat.sub_self]
    rfl
  · rw [List.append_assoc]
    exact hwords
  · rw [List.length_append, ← hdrawn]
    rfl

/-- The draw comes out as `a` if the words come next, and uses up these words. -/
def Gives {α : Type} (draw : WordList → α × WordList) (words : List UInt64) (a : α) : Prop :=
  ∀ s more, s.Ahead (words ++ more) → ∃ s', draw s = (a, s') ∧ s'.Ahead more

/-! ## 3. The draws -/

theorem exists_gives_oneInFour (yes : Bool) :
    ∃ w, Gives Source.oneInFour [w] yes := by
  refine ⟨if yes then 0 else 4611686018427387904, ?_⟩
  intro s more h
  obtain ⟨s', hnext, hs'⟩ := h.next
  refine ⟨s', ?_, hs'⟩
  show (decide ((s.next).1.toNat < Word.quarter64), (s.next).2) = _
  rw [hnext]
  cases yes <;> rfl

/-- **Every number of a range is drawn from some word.** -/
theorem exists_gives_upTo {n : Nat} (hn : 2 * n < Word.size32) (i : Fin (n + 1)) :
    ∃ w, Gives (Source.upTo n) [w] i := by
  obtain ⟨hscaled, hcarry⟩ := Word.scaled_first hn (Nat.le_of_lt_succ i.isLt)
  refine ⟨(UInt32.ofNat (Word.first n i)).toUInt64, ?_⟩
  intro s more h
  obtain ⟨s', hnext, hs'⟩ := h.next
  refine ⟨s', ?_, hs'⟩
  have hnext32 : WordSource.next32 s = (UInt32.ofNat (Word.first n i), s') := by
    show ((s.next).1.toUInt32, (s.next).2) = _
    rw [hnext, UInt32.toUInt32_toUInt64]
  simp only [Source.upTo, hnext32, hcarry]
  exact Prod.ext (Fin.ext hscaled) rfl

end WordList
end Sentential
