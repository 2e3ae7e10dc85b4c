/-
# A place gains lines

Adding an exercise puts the line of its record behind what is at the place, or it fails and leaves the
place as it is.

* `Record.count_savedLine`, `Record.getLast?_savedLine`: a line that is saved is one line;
* `Place.add_cases`: what adding does, whatever is at the place;
* `Place.Extends.append`: lines that are gained one after another.
-/
import Sentential.Proofs.Store

namespace Sentential

/-! ## 1. Saved lines -/

/-- The line of a record as it is saved, with its line feed. -/
def Record.savedLine (r : Record) : List Char := r.line ++ ['\n']

theorem Record.count_savedLine (r : Record) : r.savedLine.count '\n' = 1 := by
  have hline : r.line.count '\n' = 0 :=
    List.count_eq_zero.mpr fun h => nomatch r.isControl_line _ h
  rw [savedLine, List.count_append, hline]
  rfl

theorem Record.getLast?_savedLine (r : Record) : r.savedLine.getLast? = some '\n' :=
  List.getLast?_concat

/-- The saved lines of some records. -/
def savedText (records : List Record) : String := String.ofList (records.flatMap Record.savedLine)

theorem toUTF8_savedText_append (records more : List Record) :
    (savedText (records ++ more)).toUTF8 =
      (savedText records).toUTF8 ++ (savedText more).toUTF8 := by
  have htext : savedText (records ++ more) = savedText records ++ savedText more := by
    rw [savedText, List.flatMap_append, String.ofList_append]
    rfl
  rw [htext]
  exact String.toByteArray_append ..

theorem savedText_singleton (r : Record) :
    savedText [r] = String.ofList (r.line ++ ['\n']) := by
  rw [savedText, List.flatMap_singleton]
  rfl

/-! ## 2. Gaining lines -/

namespace Place

/-- What a text that is saved at the place is put behind.  Where no file can be made nothing is
saved. -/
def base? : Place → Option ByteArray
  | .absent => some .empty
  | .file bytes => some bytes
  | _ => none

theorem append_cases (place : Place) (text : String) :
    (place.base? = none ∧ ∃ e, place.append text = .error e) ∨
      ∃ bytes, place.base? = some bytes ∧
        place.append text = .ok (.file (bytes ++ text.toUTF8)) := by
  cases place with
  | absent => exact .inr ⟨.empty, rfl, by rw [ByteArray.empty_append]; rfl⟩
  | file bytes => exact .inr ⟨bytes, rfl, rfl⟩
  | directory => exact .inl ⟨rfl, _, rfl⟩
  | orphaned => exact .inl ⟨rfl, _, rfl⟩
  | belowFile => exact .inl ⟨rfl, _, rfl⟩

/-- The text is a formula without its blanks, and there can be a file at the place. -/
def CanAdd (place : Place) (text : String) : Prop :=
  (∃ f, Formula.parse (withoutBlanks text) = .ok f) ∧ ∃ bytes, place.base? = some bytes

/-- **Adding saves one line, or it fails and changes nothing.** -/
theorem add_cases (place : Place) (prompt text : String) :
    (¬ place.CanAdd text ∧ ∃ e, place.add prompt text = (.error e, place)) ∨
      place.CanAdd text ∧ ∃ bytes, place.base? = some bytes ∧
        place.add prompt text = (.ok ⟨trimBlanks prompt, withoutBlanks text⟩,
          .file (bytes ++ (savedText [⟨trimBlanks prompt, withoutBlanks text⟩]).toUTF8)) := by
  rw [savedText_singleton, CanAdd]
  cases hf : Formula.parse (withoutBlanks text) with
  | error e => exact .inl ⟨by simp, _, add_of_error place prompt hf⟩
  | ok f =>
    rw [add_of_ok place prompt hf]
    rcases place.append_cases
      (String.ofList (Record.line ⟨trimBlanks prompt, withoutBlanks text⟩ ++ ['\n'])) with
      ⟨hbase, e, happend⟩ | ⟨bytes, hbase, happend⟩
    · exact .inl ⟨by simp [hbase], .access e, by simp only [happend]⟩
    · exact .inr ⟨⟨⟨f, rfl⟩, bytes, hbase⟩, bytes, hbase, by simp only [happend]⟩

/-- The second place is the first one with the lines of some records behind what is there.  Without
records it is the same place, so where there was no file there is none. -/
inductive Extends (before : Place) : List Record → Place → Prop
  | same : Extends before [] before
  | lines {records : List Record} {bytes : ByteArray} (hne : records ≠ [])
      (hbase : before.base? = some bytes) :
      Extends before records (.file (bytes ++ (savedText records).toUTF8))

theorem Extends.eq_of_nil {a b : Place} (h : a.Extends [] b) : b = a := by
  cases h with
  | same => rfl
  | lines hne _ => exact absurd rfl hne

theorem Extends.append {a b c : Place} {records more : List Record} (h : a.Extends records b)
    (h' : b.Extends more c) : a.Extends (records ++ more) c := by
  cases h with
  | same => exact h'
  | lines hne hbase =>
    cases h' with
    | same =>
      rw [List.append_nil]
      exact .lines hne hbase
    | lines hne' hbase' =>
      -- the later lines are put behind the file that has the earlier ones
      obtain rfl := Option.some.inj hbase'
      rw [ByteArray.append_assoc, ← toUTF8_savedText_append]
      exact .lines (List.append_ne_nil_of_left_ne_nil hne more) hbase

end Place

end Sentential
