/-
# A store is loaded line by line

What is on a line does not depend on the other lines; these only decide its number.  So a text that
follows ended lines is loaded as it would be on its own, except that the numbers in its errors go on
from those lines, and loading ends at the first bad line of the whole text.  A blank line holds
nothing but is counted, and a carriage return in front of a line feed is no part of the line.

* `exercisesOfLines_eq_error_iff`: the error is that of the first bad line;
* `exercisesOfText_append_of_closed`: a text behind ended lines;
* `exercisesOfText_insert_blank`: a blank line between two lines;
* `exercisesOfText_withReturns`: line feeds turned into pairs;
* `Place.loading_is_line_local`: all together, for files.
-/
import Sentential.Proofs.Store

namespace Sentential

/-! ## 1. The numbers of errors -/

namespace StoreError

/-- The number of the line that the error is about, if it is about one. -/
def line? : StoreError → Option Nat
  | .badRecord line _ => some line
  | .corrupted line _ => some line
  | .access _ => none
  | .invalidFormula _ => none

/-- The error with the number of its line changed. -/
def renumber (φ : Nat → Nat) : StoreError → StoreError
  | .badRecord line fault => .badRecord (φ line) fault
  | .corrupted line e => .corrupted (φ line) e
  | .access e => .access e
  | .invalidFormula e => .invalidFormula e

variable {e : StoreError} {φ ψ : Nat → Nat} {n : Nat}

theorem renumber_renumber (φ ψ : Nat → Nat) (e : StoreError) :
    (e.renumber φ).renumber ψ = e.renumber (ψ ∘ φ) := by
  cases e <;> rfl

/-- Only the number of the error's own line counts. -/
theorem renumber_congr (hn : e.line? = some n) (h : φ n = ψ n) : e.renumber φ = e.renumber ψ := by
  cases e with
  | badRecord line fault =>
    obtain rfl := Option.some.inj hn
    rw [renumber, renumber, h]
  | corrupted line err =>
    obtain rfl := Option.some.inj hn
    rw [renumber, renumber, h]
  | access err => cases hn
  | invalidFormula err => cases hn

theorem renumber_eq_self (hn : e.line? = some n) (h : φ n = n) : e.renumber φ = e := by
  have hid : e.renumber id = e := by cases e <;> rfl
  rw [renumber_congr hn (ψ := id) h, hid]

end StoreError

/-- The number of a line has no part in what is on it. -/
theorem exerciseOfLine_add (number k : Nat) (line : List Char) :
    exerciseOfLine (number + k) line =
      (exerciseOfLine number line).mapError (·.renumber (· + k)) := by
  rw [exerciseOfLine, exerciseOfLine]
  cases Record.ofLine line with
  | error fault => rfl
  | ok r => cases hr : Exercise.ofRecord r <;> simp only [hr] <;> rfl

theorem exercisesOfLines_add (number k : Nat) (lines : List (List Char)) :
    exercisesOfLines (number + k) lines =
      (exercisesOfLines number lines).mapError (·.renumber (· + k)) := by
  induction lines generalizing number with
  | nil => rfl
  | cons line lines ih =>
    rw [exercisesOfLines, exercisesOfLines, exerciseOfLine_add, Nat.add_right_comm, ih]
    split
    · rfl
    · cases exerciseOfLine number line with
      | error e => rfl
      | ok e => cases exercisesOfLines (number + 1) lines <;> rfl

/-! ## 2. The first bad line -/

/-- The line is not blank, and the error says why no exercise is on it. -/
structure BadLine (number : Nat) (line : List Char) (e : StoreError) : Prop where
  notBlank : line.all isBlank = false
  error : exerciseOfLine number line = .error e

namespace BadLine

variable {number n : Nat} {line : List Char} {e : StoreError}

theorem line?_eq (h : BadLine number line e) : e.line? = some number := by
  have he := h.error
  rw [exerciseOfLine] at he
  split at he
  · cases he
    rfl
  · split at he
    · cases he
      rfl
    · cases he

/-- Whether a line is bad does not depend on its number. -/
theorem of_number (h : BadLine number line e) (n : Nat) : ∃ e', BadLine n line e' := by
  cases hn : exerciseOfLine n line with
  | error e' => exact ⟨e', h.notBlank, hn⟩
  | ok x =>
    have hzero (k : Nat) := exerciseOfLine_add 0 k line
    have he := h.error
    rw [← Nat.zero_add number, hzero] at he
    rw [← Nat.zero_add n, hzero] at hn
    cases hline : exerciseOfLine 0 line with
    | error e' =>
      rw [hline] at hn
      cases hn
    | ok x' =>
      rw [hline] at he
      cases he

end BadLine

/-- The error is about the first bad one of the lines, which are numbered from `number` up. -/
def FirstBad (number : Nat) (lines : List (List Char)) (e : StoreError) : Prop :=
  ∃ before line after, lines = before ++ line :: after ∧
    e.line? = some (number + before.length) ∧ BadLine (number + before.length) line e ∧
    ∀ earlier ∈ before, ∀ n e', ¬ BadLine n earlier e'

namespace FirstBad

variable {number : Nat} {line : List Char} {lines : List (List Char)} {e : StoreError}

theorem nil : ¬ FirstBad number [] e := by
  rintro ⟨before, line, after, hlines, -⟩
  cases before <;> cases hlines

theorem here (h : BadLine number line e) : FirstBad number (line :: lines) e :=
  ⟨[], line, lines, rfl, h.line?_eq, h, fun _ hearlier => absurd hearlier List.not_mem_nil⟩

theorem later (hline : ∀ n e', ¬ BadLine n line e') :
    FirstBad number (line :: lines) e ↔ FirstBad (number + 1) lines e := by
  have hnumber (before : List (List Char)) :
      number + (line :: before).length = number + 1 + before.length := by
    rw [List.length_cons]
    omega
  constructor
  · rintro ⟨before, bad, after, hlines, he, hbad, hbefore⟩
    cases before with
    | nil =>
      obtain ⟨rfl, -⟩ := List.cons.inj hlines
      exact absurd hbad (hline _ _)
    | cons first before =>
      obtain ⟨rfl, htail⟩ := List.cons.inj hlines
      rw [hnumber] at he hbad
      refine ⟨before, bad, after, htail, he, hbad, ?_⟩
      intro earlier hearlier
      exact hbefore earlier (List.mem_cons_of_mem _ hearlier)
  · rintro ⟨before, bad, after, rfl, he, hbad, hbefore⟩
    rw [← hnumber] at he hbad
    refine ⟨line :: before, bad, after, rfl, he, hbad, ?_⟩
    intro earlier hearlier
    rcases List.mem_cons.mp hearlier with rfl | hearlier
    · exact hline
    · exact hbefore earlier hearlier

/-- No error comes from a line in front of the first bad one. -/
theorem unique {e' : StoreError} (hbad : BadLine number line e')
    (h : FirstBad number (line :: lines) e) : e = e' := by
  obtain ⟨before, bad, after, hlines, -, hfirst, hbefore⟩ := h
  cases before with
  | nil =>
    obtain ⟨rfl, -⟩ := List.cons.inj hlines
    exact Except.error.inj (hfirst.error.symm.trans hbad.error)
  | cons first before =>
    obtain ⟨rfl, -⟩ := List.cons.inj hlines
    exact absurd hbad (hbefore _ List.mem_cons_self _ _)

end FirstBad

/-- **Loading lines fails at the first bad one.** -/
theorem exercisesOfLines_eq_error_iff {number : Nat} {lines : List (List Char)} {e : StoreError} :
    exercisesOfLines number lines = .error e ↔ FirstBad number lines e := by
  induction lines generalizing number with
  | nil => exact iff_of_false nofun FirstBad.nil
  | cons line lines ih =>
    rw [exercisesOfLines]
    split
    · next hblank =>
      rw [ih, FirstBad.later]
      intro n e' hbad
      rw [hbad.notBlank] at hblank
      cases hblank
    · next hblank =>
      cases hline : exerciseOfLine number line with
      | error e' =>
        have hbad : BadLine number line e' := ⟨Bool.eq_false_iff.mpr hblank, hline⟩
        constructor
        · intro he
          obtain rfl := Except.error.inj he
          exact .here hbad
        · intro h
          rw [h.unique hbad]
      | ok x =>
        rw [FirstBad.later, ← ih]
        · cases exercisesOfLines (number + 1) lines <;> simp [Except.map]
        · intro n e' hbad
          obtain ⟨e'', hbad⟩ := hbad.of_number number
          rw [hbad.error] at hline
          cases hline

theorem exercisesOfText_eq_error_iff {text : String} {e : StoreError} :
    exercisesOfText text = .error e ↔ FirstBad 1 (Lines.ofText text.toList) e :=
  exercisesOfLines_eq_error_iff

/-- An error of a text is about one of its lines. -/
theorem exists_line?_of_exercisesOfText {text : String} {e : StoreError}
    (h : exercisesOfText text = .error e) :
    ∃ n, e.line? = some n ∧ 1 ≤ n ∧ n ≤ (Lines.ofText text.toList).length := by
  obtain ⟨before, line, after, hlines, he, -⟩ := exercisesOfText_eq_error_iff.mp h
  refine ⟨_, he, Nat.le_add_right 1 _, ?_⟩
  rw [hlines, List.length_append, List.length_cons]
  omega

/-! ## 3. Texts put together -/

/-- **A text behind ended lines is loaded as on its own**, with the numbers of its lines going on
from theirs. -/
theorem exercisesOfText_append_of_closed {c₁ : String} (h : Lines.Closed '\n' c₁.toList)
    (c₂ : String) :
    exercisesOfText (c₁ ++ c₂) =
      match exercisesOfText c₁, exercisesOfText c₂ with
      | .error e, _ => .error e
      | .ok _, .error e => .error (e.renumber (· + c₁.toList.count '\n'))
      | .ok es, .ok more => .ok (es ++ more) := by
  have hlines : Lines.ofText (c₁ ++ c₂).toList =
      Lines.ofText c₁.toList ++ Lines.ofText c₂.toList := by
    rw [String.toList_append]
    exact h.split_append '\r' c₂.toList
  have hlength : (Lines.ofText c₁.toList).length = c₁.toList.count '\n' := h.length_split '\r'
  rw [exercisesOfText, hlines, exercisesOfLines_append, hlength, exercisesOfLines_add,
    ← exercisesOfText, ← exercisesOfText]
  cases exercisesOfText c₁ <;> cases exercisesOfText c₂ <;> rfl

theorem exercisesOfText_blank {blank : String} (hblank : blank.toList.all isBlank = true)
    (hlf : '\n' ∉ blank.toList) : exercisesOfText (blank ++ "\n") = .ok [] := by
  have hlines : Lines.ofText (blank ++ "\n").toList = [Lines.dropFinal '\r' blank.toList] := by
    rw [String.toList_append]
    exact Lines.split_line hlf '\r'
  have hdrop : (Lines.dropFinal '\r' blank.toList).all isBlank = true := by
    rw [Lines.dropFinal]
    split
    · exact List.all_eq_true.mpr fun c hc =>
        List.all_eq_true.mp hblank c (List.dropLast_subset _ hc)
    · exact hblank
  rw [exercisesOfText, hlines, exercisesOfLines, if_pos hdrop, exercisesOfLines]

/-- The number that a line gets when one is inserted behind the first `k` lines. -/
def numberBeside (k n : Nat) : Nat := if n ≤ k then n else n + 1

/-- **A blank line between two lines** changes nothing but the numbers behind it. -/
theorem exercisesOfText_insert_blank {c₁ blank : String} (h : Lines.Closed '\n' c₁.toList)
    (hblank : blank.toList.all isBlank = true) (hlf : '\n' ∉ blank.toList) (c₂ : String) :
    exercisesOfText (c₁ ++ (blank ++ "\n") ++ c₂) =
      (exercisesOfText (c₁ ++ c₂)).mapError
        (·.renumber (numberBeside (c₁.toList.count '\n'))) := by
  have hended : (blank ++ "\n").toList = blank.toList ++ ['\n'] := String.toList_append
  have hclosed : Lines.Closed '\n' (blank ++ "\n").toList := by
    rw [hended]
    exact .append_stop '\n' _
  have hcount : (blank ++ "\n").toList.count '\n' = 1 := by
    rw [hended, List.count_append, List.count_eq_zero.mpr hlf]
    rfl
  have hlength : (Lines.ofText c₁.toList).length = c₁.toList.count '\n' := h.length_split '\r'
  rw [String.append_assoc, exercisesOfText_append_of_closed h, exercisesOfText_append_of_closed h,
    exercisesOfText_append_of_closed hclosed, exercisesOfText_blank hblank hlf, hcount]
  cases h₁ : exercisesOfText c₁ with
  | error e =>
    obtain ⟨n, hn, -, hle⟩ := exists_line?_of_exercisesOfText h₁
    rw [hlength] at hle
    have hsame : numberBeside (c₁.toList.count '\n') n = n := if_pos hle
    exact congrArg Except.error (StoreError.renumber_eq_self hn hsame).symm
  | ok es =>
    cases h₂ : exercisesOfText c₂ with
    | error e =>
      obtain ⟨n, hn, hpos, -⟩ := exists_line?_of_exercisesOfText h₂
      simp only [Except.mapError, StoreError.renumber_renumber]
      refine congrArg Except.error (StoreError.renumber_congr hn ?_)
      rw [Function.comp_apply, Function.comp_apply, numberBeside, if_neg (by omega)]
      omega
    | ok more => rfl

/-- **Line feeds turned into pairs** change nothing. -/
theorem exercisesOfText_withReturns {text : String} (hcr : '\r' ∉ text.toList) :
    exercisesOfText (String.ofList (Lines.withReturns '\n' '\r' text.toList)) =
      exercisesOfText text := by
  have hlines := Lines.split_withReturns (by decide : '\r' ≠ '\n') hcr
  rw [exercisesOfText, String.toList_ofList, Lines.ofText, hlines, exercisesOfText, Lines.ofText]

/-! ## 4. Files -/

namespace Place

/-- **Loading is line-local.**  Behind ended lines a text is loaded as it would be on its own, with
the numbers in its errors counted from them.  Every error of a text is that of its first bad line,
with the number of that line.  A blank line between two lines changes nothing but the numbers behind
it, and line feeds that are turned into pairs change nothing. -/
theorem loading_is_line_local :
    (∀ c₁ c₂ : String, Lines.Closed '\n' c₁.toList →
      (file (c₁ ++ c₂).toUTF8).load =
        match (file c₁.toUTF8).load, (file c₂.toUTF8).load with
        | .error e, _ => .error e
        | .ok _, .error e => .error (e.renumber (· + c₁.toList.count '\n'))
        | .ok es, .ok more => .ok (es ++ more)) ∧
    (∀ (text : String) (e : StoreError),
      (file text.toUTF8).load = .error e ↔ FirstBad 1 (Lines.ofText text.toList) e) ∧
    (∀ c₁ blank c₂ : String, Lines.Closed '\n' c₁.toList → blank.toList.all isBlank = true →
      '\n' ∉ blank.toList →
      (file (c₁ ++ (blank ++ "\n") ++ c₂).toUTF8).load =
        (file (c₁ ++ c₂).toUTF8).load.mapError
          (·.renumber (numberBeside (c₁.toList.count '\n')))) ∧
    ∀ text : String, '\r' ∉ text.toList →
      (file (String.ofList (Lines.withReturns '\n' '\r' text.toList)).toUTF8).load =
        (file text.toUTF8).load := by
  simp only [load_toUTF8]
  refine ⟨?_, ?_, ?_, ?_⟩
  · intro c₁ c₂ h
    exact exercisesOfText_append_of_closed h c₂
  · intro text e
    exact exercisesOfText_eq_error_iff
  · intro c₁ blank c₂ h hblank hlf
    exact exercisesOfText_insert_blank h hblank hlf c₂
  · intro text hcr
    exact exercisesOfText_withReturns hcr

/-- The second line is bad.  It becomes the third one when a no-break space is put on a line in front
of it. -/
theorem counts_lines_up_to_bad_one :
    let c₁ := "\x7b\"prompt\":\"Tea is hot\",\"formula\":\"p\"\x7d\n"
    let c₂ := "oops\n"
    Lines.Closed '\n' c₁.toList ∧
      (file (c₁ ++ c₂).toUTF8).load = .error (.badRecord 2 .illFormed) ∧
      FirstBad 1 (Lines.ofText (c₁ ++ c₂).toList) (.badRecord 2 .illFormed) ∧
      (file (c₁ ++ ("\u00a0" ++ "\n") ++ c₂).toUTF8).load = .error (.badRecord 3 .illFormed) ∧
      (file (String.ofList (Lines.withReturns '\n' '\r' (c₁ ++ c₂).toList)).toUTF8).load =
        .error (.badRecord 2 .illFormed) := by
  intro c₁ c₂
  let tea : Exercise := ⟨.atom (.variable .p), "Tea is hot", ∅⟩
  have hclosed : Lines.Closed '\n' c₁.toList := .inr ⟨tea.toRecord.line, by decide⟩
  have hfirst : (file c₁.toUTF8).load = .ok [tea] := by
    have hlines : Lines.ofText c₁.toList = [tea.toRecord.line] := by decide
    rw [load_toUTF8, exercisesOfText, hlines, exercisesOfLines, all_isBlank_line,
      exerciseOfLine_line ⟨by decide, rfl⟩]
    rfl
  have hsecond : (file c₂.toUTF8).load = .error (.badRecord 1 .illFormed) := by
    have hlines : Lines.ofText c₂.toList = [['o', 'o', 'p', 's']] := by decide
    rw [load_toUTF8, exercisesOfText, hlines]
    rfl
  have hcount : c₁.toList.count '\n' = 1 := by decide
  obtain ⟨happend, hbad, hblank, hreturns⟩ := loading_is_line_local
  have hload : (file (c₁ ++ c₂).toUTF8).load = .error (.badRecord 2 .illFormed) := by
    rw [happend c₁ c₂ hclosed, hfirst, hsecond, hcount]
    rfl
  refine ⟨hclosed, hload, (hbad _ _).mp hload, ?_, ?_⟩
  · rw [hblank c₁ "\u00a0" c₂ hclosed (by decide) (by decide), hload, hcount]
    rfl
  · rw [hreturns (c₁ ++ c₂) (by decide), hload]

end Place
end Sentential
