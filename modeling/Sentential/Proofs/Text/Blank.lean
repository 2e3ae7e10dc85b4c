/-
# Texts that differ in blanks only

Blanks may stand anywhere in what somebody typed, also inside the token of a connective.
`SameButBlanks` says, without taking any blank out, that two texts differ in nothing else.  At the
ends of a sentence blanks are left out; what is left has none there, so nothing more can be left out.

* `withoutBlanks_eq_iff`: these are the texts that are the same once their blanks are left out;
* `Trimmed.trimmed_eq`, `trimBlanks_idem`: a text without blanks at its ends stays as it is;
* `Lines.ofText_joined`: lines whose only blanks are spaces are printed and read back.
-/
import Sentential.Proofs.Text.Lines
import Sentential.Text.Blank

namespace Sentential

/-! ## 1. Blanks anywhere -/

/-- Two texts are the same but for blanks, any number of which may stand anywhere in either. -/
inductive SameButBlanks : List Char → List Char → Prop where
  | nil : SameButBlanks [] []
  | cons (c : Char) {s t : List Char} : SameButBlanks s t → SameButBlanks (c :: s) (c :: t)
  | blankLeft {c : Char} {s t : List Char} :
    isBlank c = true → SameButBlanks s t → SameButBlanks (c :: s) t
  | blankRight {c : Char} {s t : List Char} :
    isBlank c = true → SameButBlanks s t → SameButBlanks s (c :: t)

namespace SameButBlanks

theorem filter_eq {s t : List Char} (h : SameButBlanks s t) :
    s.filter (fun c => !isBlank c) = t.filter (fun c => !isBlank c) := by
  induction h with
  | nil => rfl
  | cons c h ih => rw [List.filter_cons, List.filter_cons, ih]
  | blankLeft hc h ih => rw [List.filter_cons_of_neg (by simp [hc]), ih]
  | blankRight hc h ih => rw [List.filter_cons_of_neg (by simp [hc]), ih]

/-- The induction passes the blanks in front of the second text before it comes to the character
that both texts share. -/
theorem of_cons_filter {c : Char} {s t : List Char}
    (ih : ∀ t, s.filter (fun c => !isBlank c) = t.filter (fun c => !isBlank c) →
      SameButBlanks s t)
    (h : c :: s.filter (fun c => !isBlank c) = t.filter (fun c => !isBlank c)) :
    SameButBlanks (c :: s) t := by
  induction t with
  | nil => cases h
  | cons d t iht =>
    cases hd : isBlank d with
    | true =>
      rw [List.filter_cons_of_neg (by simp [hd])] at h
      exact .blankRight hd (iht h)
    | false =>
      rw [List.filter_cons_of_pos (by simp [hd])] at h
      obtain ⟨rfl, hst⟩ := List.cons.inj h
      exact .cons c (ih t hst)

theorem of_filter_eq {s t : List Char}
    (h : s.filter (fun c => !isBlank c) = t.filter (fun c => !isBlank c)) :
    SameButBlanks s t := by
  induction s generalizing t with
  | nil =>
    induction t with
    | nil => exact .nil
    | cons d t iht =>
      have hd : isBlank d = true := by
        have hall := List.filter_eq_nil_iff.mp h.symm d List.mem_cons_self
        simpa using hall
      rw [List.filter_cons_of_neg (by simp [hd])] at h
      exact .blankRight hd (iht h)
  | cons c s ih =>
    cases hc : isBlank c with
    | true =>
      rw [List.filter_cons_of_neg (by simp [hc])] at h
      exact .blankLeft hc (ih h)
    | false =>
      rw [List.filter_cons_of_pos (by simp [hc])] at h
      exact of_cons_filter (fun t => ih) h

end SameButBlanks

theorem withoutBlanks_eq_iff {s t : String} :
    withoutBlanks s = withoutBlanks t ↔ SameButBlanks s.toList t.toList := by
  rw [withoutBlanks, withoutBlanks, String.ofList_inj]
  constructor
  · exact SameButBlanks.of_filter_eq
  · exact SameButBlanks.filter_eq

theorem withoutBlanks_eq_self {s : String} (h : ∀ c ∈ s.toList, isBlank c = false) :
    withoutBlanks s = s := by
  have hkept : s.toList.filter (fun c => !isBlank c) = s.toList :=
    List.filter_eq_self.mpr fun c hc => by rw [h c hc]; rfl
  rw [withoutBlanks, hkept, String.ofList_toList]

/-! ## 2. Blanks at the ends -/

/-- Neither the first nor the last character is blank. -/
structure Trimmed (s : List Char) : Prop where
  head : ∀ c ∈ s.head?, isBlank c = false
  last : ∀ c ∈ s.getLast?, isBlank c = false

theorem dropWhile_isBlank_eq_self {s : List Char} (h : ∀ c ∈ s.head?, isBlank c = false) :
    s.dropWhile isBlank = s := by
  cases s with
  | nil => rfl
  | cons c s =>
    refine List.dropWhile_cons_of_neg ?_
    rw [h c rfl]
    decide

theorem isBlank_of_head?_dropWhile {s : List Char} {c : Char}
    (h : c ∈ (s.dropWhile isBlank).head?) : isBlank c = false := by
  have hhead := List.head?_dropWhile_not isBlank s
  rwa [Option.mem_def.mp h] at hhead

/-- **Trimming ends when no blank is left at the ends.** -/
theorem trimmed_trimmed (s : List Char) : Trimmed (trimmed s) := by
  have hsuffix := List.dropWhile_suffix (l := (s.dropWhile isBlank).reverse) isBlank
  obtain ⟨blanks, hblanks⟩ := hsuffix
  constructor
  · intro c hc
    -- the blanks at the end are taken from behind the first character
    refine isBlank_of_head?_dropWhile (s := s) ?_
    have hfront : s.dropWhile isBlank = trimmed s ++ blanks.reverse := by
      rw [trimmed, ← List.reverse_append, hblanks, List.reverse_reverse]
    rw [hfront, List.head?_append, Option.mem_def.mp hc]
    rfl
  · intro c hc
    rw [trimmed, List.getLast?_reverse] at hc
    exact isBlank_of_head?_dropWhile hc

theorem Trimmed.trimmed_eq {s : List Char} (h : Trimmed s) : trimmed s = s := by
  have hlast : ∀ c ∈ s.reverse.head?, isBlank c = false := by
    rw [List.head?_reverse]
    exact h.last
  rw [trimmed, dropWhile_isBlank_eq_self h.head, dropWhile_isBlank_eq_self hlast,
    List.reverse_reverse]

theorem trimBlanks_idem (s : String) : trimBlanks (trimBlanks s) = trimBlanks s := by
  rw [trimBlanks, trimBlanks, String.toList_ofList, (trimmed_trimmed s.toList).trimmed_eq]

/-! ## 3. Spaces in a line -/

/-- The only blanks in the text are spaces, so it is one line. -/
def Spaced (s : List Char) : Prop := ∀ c ∈ s, isBlank c = true → c = ' '

namespace Spaced

variable {s t : List Char}

theorem of_forall (h : ∀ c ∈ s, isBlank c = false) : Spaced s := by
  intro c hc hblank
  simp [h c hc] at hblank

theorem append (hs : Spaced s) (ht : Spaced t) : Spaced (s ++ t) :=
  List.forall_mem_append.mpr ⟨hs, ht⟩

theorem cons {c : Char} (hc : isBlank c = true → c = ' ') (hs : Spaced s) : Spaced (c :: s) :=
  List.forall_mem_cons.mpr ⟨hc, hs⟩

theorem notMem {c : Char} (hs : Spaced s) (hblank : isBlank c = true) (hc : c ≠ ' ') : c ∉ s :=
  fun h => hc (hs c h hblank)

end Spaced

/-- **Lines whose only blanks are spaces are read back as they were printed.** -/
theorem Lines.ofText_joined {lines : List (List Char)} (h : ∀ line ∈ lines, Spaced line) :
    ofText (lines.flatMap (· ++ ['\n'])) = lines :=
  split_joined_eq_self (fun line hline => (h line hline).notMem (by decide) (by decide))
    fun line hline => (h line hline).notMem (by decide) (by decide)

end Sentential
