/-
# Adding to a store and loading it

The lines of a store are read one after another, so a line that is appended to a store whose lines
are all ended is loaded behind the others (`exercisesOfText_append_line`).  What a place holds is
what such a store loads: a place keeps it while exercises are added.

* `Place.Holds.load`: the exercises that a place holds are those that are loaded;
* `Place.add_of_ok`, `Place.add_of_error`: what adding does with a text that is a formula, and with
  one that is none;
* `Place.Holds.add`: an exercise is added behind those that a place holds.
-/
import Sentential.Proofs.Formula.RoundTrip
import Sentential.Proofs.Record
import Sentential.Proofs.Text.Lines
import Sentential.Store

namespace Sentential

/-! ## 1. Exercises on lines -/

/-- An exercise that a record can describe. -/
structure Exercise.Recordable (e : Exercise) : Prop where
  shallow : e.formula.depth ≤ maxDepth
  meaningless : e.meaning = ∅

theorem Exercise.Recordable.ofRecord_toRecord {e : Exercise} (he : e.Recordable) :
    Exercise.ofRecord e.toRecord = .ok e := by
  obtain ⟨f, prompt, m⟩ := e
  obtain rfl : m = ∅ := he.meaningless
  have hf := Formula.parse_toString he.shallow
  rw [Exercise.ofRecord, Exercise.toRecord, hf]
  rfl

theorem exerciseOfLine_line {e : Exercise} (he : e.Recordable) (number : Nat) :
    exerciseOfLine number e.toRecord.line = .ok e := by
  rw [exerciseOfLine, Record.ofLine_line]
  simp only [he.ofRecord_toRecord]

/-- Loading lines goes on behind the first of them with the number it has reached. -/
theorem exercisesOfLines_append (number : Nat) (lines more : List (List Char)) :
    exercisesOfLines number (lines ++ more) =
      exercisesOfLines number lines >>= fun es =>
        (exercisesOfLines (number + lines.length) more).map (es ++ ·) := by
  induction lines generalizing number with
  | nil =>
    rw [List.nil_append, exercisesOfLines]
    cases exercisesOfLines number more <;> rfl
  | cons line lines ih =>
    rw [List.cons_append, exercisesOfLines, exercisesOfLines, ih, List.length_cons,
      Nat.add_comm lines.length, ← Nat.add_assoc]
    split
    · rfl
    · cases exerciseOfLine number line with
      | error e => rfl
      | ok e =>
        cases exercisesOfLines (number + 1) lines with
        | error e => rfl
        | ok es => cases exercisesOfLines (number + 1 + lines.length) more <;> rfl

/-! ## 2. Appending a line -/

/-- A record that is appended with a line feed behind it goes on with the open line. -/
theorem ofText_append_line (s : List Char) (r : Record) :
    Lines.ofText (s ++ (r.line ++ ['\n'])) =
      Lines.ended '\n' '\r' s ++ [Lines.openLine '\n' s ++ r.line] := by
  have hlf : '\n' ∉ r.line := fun h => nomatch r.isControl_line _ h
  have hlast : r.line.getLast? = some '}' := List.getLast?_concat
  exact Lines.split_append_line hlf hlast (by decide) s

theorem all_isBlank_line (r : Record) : r.line.all isBlank = false := by
  rw [Record.line_eq]
  rfl

/-- **A line that is appended is loaded behind the others**, if none of them is open. -/
theorem exercisesOfText_append_line {text : String} {es : List Exercise} {e : Exercise}
    (hclosed : Lines.Closed '\n' text.toList) (htext : exercisesOfText text = .ok es)
    (he : e.Recordable) :
    exercisesOfText (text ++ String.ofList (e.toRecord.line ++ ['\n'])) = .ok (es ++ [e]) := by
  have hopen := hclosed.openLine_eq_nil
  have hlines : Lines.ofText text.toList = Lines.ended '\n' '\r' text.toList := by
    rw [Lines.ofText, Lines.split_eq, hopen]
    simp
  rw [exercisesOfText, hlines] at htext
  rw [exercisesOfText, String.toList_append, String.toList_ofList, ofText_append_line, hopen,
    List.nil_append, exercisesOfLines_append, htext]
  simp only [exercisesOfLines, all_isBlank_line, exerciseOfLine_line he]
  rfl

/-! ## 3. Adding -/

theorem Place.add_of_error (place : Place) (prompt : String) {text : String} {e : SyntaxError}
    (he : Formula.parse (withoutBlanks text) = .error e) :
    place.add prompt text = (.error (.invalidFormula e), place) := by
  rw [add, he]

/-- The line of a record is appended to the place.  The record has the text that was read, for the
canonical text of a formula is the only one it is read from. -/
theorem Place.add_of_ok (place : Place) (prompt : String) {text : String} {f : Formula}
    (hf : Formula.parse (withoutBlanks text) = .ok f) :
    place.add prompt text =
      match place.append
        (String.ofList (Record.line ⟨trimBlanks prompt, withoutBlanks text⟩ ++ ['\n'])) with
      | .error e => (.error (.access e), place)
      | .ok after => (.ok ⟨trimBlanks prompt, withoutBlanks text⟩, after) := by
  rw [(Formula.parse_eq_ok_iff.mp hf).1]
  cases happend : place.append
    (String.ofList (Record.line ⟨trimBlanks prompt, toString f⟩ ++ ['\n'])) with
  | error e => simp only [add, hf, happend]
  | ok after => simp only [add, hf, happend]

/-! ## 4. What a place holds -/

theorem fromUTF8?_toUTF8 (s : String) : String.fromUTF8? s.toUTF8 = some s := by
  have hs : s.toUTF8.IsValidUTF8 := s.isValidUTF8
  rw [String.fromUTF8?, dif_pos hs]
  rfl

/-- The bytes of a text are loaded as the text. -/
theorem Place.load_toUTF8 (t : String) : (Place.file t.toUTF8).load = exercisesOfText t := by
  rw [Place.load, exercisesOfBytes, fromUTF8?_toUTF8]

/-- The exercises that a place holds, all of whose lines are ended.  Nothing can be held where no
file can be. -/
def Place.Holds (place : Place) (es : List Exercise) : Prop :=
  match place with
  | .absent => es = []
  | .file bytes =>
    ∃ text : String, bytes = text.toUTF8 ∧ Lines.Closed '\n' text.toList ∧
      exercisesOfText text = .ok es
  | _ => False

namespace Place

namespace Holds

theorem absent : Place.absent.Holds [] := rfl

theorem empty : (Place.file ByteArray.empty).Holds [] :=
  ⟨"", rfl, .inl rfl, rfl⟩

variable {place : Place} {es : List Exercise}

theorem load (h : place.Holds es) : place.load = .ok es := by
  cases place with
  | absent =>
    obtain rfl : es = [] := h
    rfl
  | file bytes =>
    obtain ⟨text, rfl, -, htext⟩ := h
    rw [load_toUTF8]
    exact htext
  | directory => cases h
  | orphaned => cases h
  | belowFile => cases h

/-- The line of an exercise can be appended, and the exercise is then held too. -/
theorem append_line (h : place.Holds es) {e : Exercise} (he : e.Recordable) :
    ∃ after, place.append (String.ofList (e.toRecord.line ++ ['\n'])) = .ok after ∧
      after.Holds (es ++ [e]) := by
  have hclosed (s : String) :
      Lines.Closed '\n' (s ++ String.ofList (e.toRecord.line ++ ['\n'])).toList := by
    rw [String.toList_append, String.toList_ofList, ← List.append_assoc]
    exact Lines.Closed.append_stop '\n' _
  cases place with
  | absent =>
    obtain rfl : es = [] := h
    refine ⟨_, rfl, "" ++ String.ofList (e.toRecord.line ++ ['\n']), ?_, hclosed "", ?_⟩
    · rw [String.empty_append]
    · exact exercisesOfText_append_line (.inl rfl) rfl he
  | file bytes =>
    obtain ⟨text, rfl, htext, hes⟩ := h
    refine ⟨_, rfl, text ++ String.ofList (e.toRecord.line ++ ['\n']), ?_, hclosed text, ?_⟩
    · exact (String.toByteArray_append ..).symm
    · exact exercisesOfText_append_line htext hes he
  | directory => cases h
  | orphaned => cases h
  | belowFile => cases h

/-- **An exercise is added behind those that are there.** -/
theorem add (h : place.Holds es) (prompt : String) {text : String} {f : Formula}
    (hf : Formula.parse (withoutBlanks text) = .ok f) :
    ∃ after, place.add prompt text = (.ok ⟨trimBlanks prompt, withoutBlanks text⟩, after) ∧
      after.Holds (es ++ [{ formula := f, prompt := trimBlanks prompt, meaning := ∅ }]) := by
  obtain ⟨htext, hdepth⟩ := Formula.parse_eq_ok_iff.mp hf
  obtain ⟨after, hafter, hholds⟩ := h.append_line
    (e := { formula := f, prompt := trimBlanks prompt, meaning := ∅ }) ⟨hdepth, rfl⟩
  refine ⟨after, ?_, hholds⟩
  rw [Exercise.toRecord, ← htext] at hafter
  simp only [place.add_of_ok prompt hf, hafter]

end Holds
end Place
end Sentential
