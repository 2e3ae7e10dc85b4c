/-
# Adding behind an open line

A store that somebody wrote by hand may be loaded although no line feed ends its last line.  An
exercise that is added then goes on this line.  If only blanks that may stand between tokens are on
it, the exercise is loaded behind the others.  Otherwise the line holds no record any more: either
one record follows another on it, or the record stands behind a blank of another kind, which was
passed over as long as the whole line was blank.

* `exercisesOfText_eq`, `exercisesOfText_append`: what is loaded from the open line of a text, and
  what with a record behind it;
* `Place.open_line_decides_load_after_add`: what is loaded after something has been added to a
  store that could be loaded.
-/
import Sentential.Proofs.Record.Extension
import Sentential.Proofs.Store

namespace Sentential

/-! ## 1. The open line of a text -/

/-- What stands behind the last line feed of a text. -/
def openLine (text : String) : List Char := Lines.openLine '\n' text.toList

/-- The number that an exercise on the open line is loaded with. -/
def openNumber (text : String) : Nat := text.toList.count '\n' + 1

/-- The exercises on the lines of a text that a line feed ends. -/
def endedExercises (text : String) : Except StoreError (List Exercise) :=
  exercisesOfLines 1 (Lines.ended '\n' '\r' text.toList)

/-- The exercises on ended lines come first, then what a last line holds. -/
theorem exercisesOfLines_ended (text : String) (line : List Char) :
    exercisesOfLines 1 (Lines.ended '\n' '\r' text.toList ++ [line]) =
      endedExercises text >>= fun es =>
        if line.all isBlank then .ok es
        else (exerciseOfLine (openNumber text) line).map (es ++ [·]) := by
  have hnumber : 1 + (Lines.ended '\n' '\r' text.toList).length = openNumber text := by
    rw [Lines.length_ended, openNumber, Nat.add_comm]
  rw [exercisesOfLines_append, hnumber, endedExercises]
  cases exercisesOfLines 1 (Lines.ended '\n' '\r' text.toList) with
  | error e => rfl
  | ok es =>
    show (exercisesOfLines (openNumber text) [line]).map (es ++ ·) = ite _ _ _
    rw [exercisesOfLines, exercisesOfLines]
    split
    · rw [Except.map, List.append_nil]
    · cases exerciseOfLine (openNumber text) line <;> rfl

/-- An open line is loaded behind those that are ended, unless it is blank. -/
theorem exercisesOfText_eq (text : String) :
    exercisesOfText text = endedExercises text >>= fun es =>
      if (openLine text).all isBlank then .ok es
      else (exerciseOfLine (openNumber text) (openLine text)).map (es ++ [·]) := by
  rw [← exercisesOfLines_ended, exercisesOfText, Lines.ofText, Lines.split_eq]
  split
  · next h =>
    rw [openLine, List.isEmpty_iff.mp h, exercisesOfLines_append, exercisesOfLines_append]
    rfl
  · rfl

/-- A record that is appended is loaded from what stands on the open line together with it. -/
theorem exercisesOfText_append (text : String) (r : Record) :
    exercisesOfText (text ++ String.ofList (r.line ++ ['\n'])) = endedExercises text >>= fun es =>
      (exerciseOfLine (openNumber text) (openLine text ++ r.line)).map (es ++ [·]) := by
  have hblank : (openLine text ++ r.line).all isBlank = false := by
    rw [List.all_append, all_isBlank_line, Bool.and_false]
  have hlines := ofText_append_line text.toList r
  rw [exercisesOfText, String.toList_append, String.toList_ofList, hlines]
  refine (exercisesOfLines_ended text (openLine text ++ r.line)).trans ?_
  simp only [hblank, Bool.false_eq_true, if_false]

/-- If a text can be loaded, so can the lines that are ended, and the open line is blank or holds a
record. -/
theorem endedExercises_of_exercisesOfText {text : String} {es : List Exercise}
    (h : exercisesOfText text = .ok es) :
    ((openLine text).all isBlank ∧ endedExercises text = .ok es) ∨
      ∃ before r, endedExercises text = .ok before ∧ Record.ofLine (openLine text) = .ok r := by
  rw [exercisesOfText_eq] at h
  obtain ⟨before, hended, hopen⟩ := Json.bind_eq_ok_iff.mp h
  split at hopen
  · next hblank =>
    cases hopen
    exact .inl ⟨hblank, hended⟩
  · obtain ⟨e, he, -⟩ := Json.map_eq_ok_iff.mp hopen
    cases hline : Record.ofLine (openLine text) with
    | error fault =>
      rw [exerciseOfLine, hline] at he
      cases he
    | ok r => exact .inr ⟨before, r, hended, rfl⟩

/-! ## 2. A record behind an open line -/

theorem ofLine_ne_ok_of_isSpace {s : List Char} (h : s.all Json.isSpace) (r : Record) :
    Record.ofLine s ≠ .ok r := by
  have hs := Record.ofLine_append_of_isSpace h []
  rw [List.append_nil] at hs
  rw [hs]
  nofun

/-- Blanks that may stand between tokens do no harm. -/
theorem exercisesOfText_append_of_isSpace {text : String} {es : List Exercise} {e : Exercise}
    (htext : exercisesOfText text = .ok es) (hspace : (openLine text).all Json.isSpace)
    (he : e.Recordable) :
    exercisesOfText (text ++ String.ofList (e.toRecord.line ++ ['\n'])) = .ok (es ++ [e]) := by
  have hline : exerciseOfLine (openNumber text) (openLine text ++ e.toRecord.line) = .ok e := by
    rw [← exerciseOfLine_line he (openNumber text), exerciseOfLine, exerciseOfLine,
      Record.ofLine_append_of_isSpace hspace]
  rcases endedExercises_of_exercisesOfText htext with ⟨-, hended⟩ | ⟨before, r, -, hr⟩
  · rw [exercisesOfText_append, hended]
    simp only [hline, bind, Except.bind]
    rfl
  · exact absurd hr (ofLine_ne_ok_of_isSpace hspace r)

/-- **Anything else on the open line makes it hold no record any more.** -/
theorem exercisesOfText_append_of_not_isSpace {text : String} {es : List Exercise}
    (htext : exercisesOfText text = .ok es) (hspace : (openLine text).all Json.isSpace = false)
    (r : Record) :
    exercisesOfText (text ++ String.ofList (r.line ++ ['\n'])) =
      .error (.badRecord (openNumber text) .illFormed) := by
  obtain ⟨before, hended, hline⟩ : ∃ before, endedExercises text = .ok before ∧
      Record.ofLine (openLine text ++ r.line) = .error .illFormed := by
    rcases endedExercises_of_exercisesOfText htext with
      ⟨hblank, hended⟩ | ⟨before, r', hended, hr'⟩
    · exact ⟨es, hended, Record.ofLine_append_of_isBlank hblank hspace r.line⟩
    · refine ⟨before, hended, ?_⟩
      rw [Record.line_eq]
      exact Record.ofLine_append_brace _ hr'
  rw [exercisesOfText_append, hended]
  simp only [exerciseOfLine, hline, bind, Except.bind]
  rfl

/-! ## 3. Adding to a place -/

namespace Place

/-- The text of the file at a place.  It is empty where there is no file, and for bytes that are no
text. -/
def text : Place → String
  | .file bytes => (String.fromUTF8? bytes).getD ""
  | _ => ""

theorem text_toUTF8 (t : String) : (file t.toUTF8).text = t := by
  rw [text, fromUTF8?_toUTF8, Option.getD_some]

theorem toUTF8_of_fromUTF8? {bytes : ByteArray} {t : String}
    (h : String.fromUTF8? bytes = some t) : bytes = t.toUTF8 := by
  rw [String.fromUTF8?] at h
  split at h
  · cases h
    rfl
  · cases h

variable {place after : Place} {es : List Exercise}

/-- Bytes that are loaded are those of a text. -/
theorem exists_toUTF8_of_load {bytes : ByteArray} (hload : (file bytes).load = .ok es) :
    ∃ t : String, bytes = t.toUTF8 := by
  rw [load, exercisesOfBytes] at hload
  cases hbytes : String.fromUTF8? bytes with
  | none =>
    rw [hbytes] at hload
    cases hload
  | some t => exact ⟨t, toUTF8_of_fromUTF8? hbytes⟩

/-- What can be loaded and appended to has a text, which the appended one then follows. -/
theorem exercisesOfText_text {line : String} (hload : place.load = .ok es)
    (happend : place.append line = .ok after) :
    exercisesOfText place.text = .ok es ∧ after.load = exercisesOfText (place.text ++ line) := by
  cases place with
  | absent =>
    cases happend
    refine ⟨hload, ?_⟩
    show (file line.toUTF8).load = exercisesOfText ("" ++ line)
    rw [load_toUTF8, String.empty_append]
  | file bytes =>
    cases happend
    obtain ⟨t, rfl⟩ := exists_toUTF8_of_load hload
    have hmore : t.toUTF8 ++ line.toUTF8 = (t ++ line).toUTF8 := (String.toByteArray_append ..).symm
    rw [text_toUTF8, hmore, load_toUTF8]
    rw [load_toUTF8] at hload
    exact ⟨hload, rfl⟩
  | directory => cases happend
  | orphaned => cases happend
  | belowFile => cases happend

/-- A record that is given back has been appended, and describes an exercise. -/
theorem append_of_add {prompt formula : String} {r : Record}
    (hadd : place.add prompt formula = (.ok r, after)) :
    place.append (String.ofList (r.line ++ ['\n'])) = .ok after ∧
      ∃ e : Exercise, e.Recordable ∧ e.toRecord = r := by
  cases hf : Formula.parse (withoutBlanks formula) with
  | error e =>
    rw [add_of_error place prompt hf] at hadd
    cases hadd
  | ok f =>
    obtain ⟨htext, hdepth⟩ := Formula.parse_eq_ok_iff.mp hf
    rw [add_of_ok place prompt hf] at hadd
    split at hadd
    · cases hadd
    · next happend =>
      obtain ⟨hr, rfl⟩ := Prod.mk.inj hadd
      obtain rfl := Except.ok.inj hr
      refine ⟨happend, { formula := f, prompt := trimBlanks prompt, meaning := ∅ }, ⟨hdepth, rfl⟩, ?_⟩
      rw [Exercise.toRecord, htext]

/-- What adding makes of the text of a place that could be loaded. -/
theorem load_of_add {prompt formula : String} {r : Record} (hload : place.load = .ok es)
    (hadd : place.add prompt formula = (.ok r, after)) :
    exercisesOfText place.text = .ok es ∧
      after.load = exercisesOfText (place.text ++ String.ofList (r.line ++ ['\n'])) :=
  exercisesOfText_text hload (append_of_add hadd).1

/-- Every formula can be added to a file, whatever it holds. -/
theorem add_file (bytes : ByteArray) (prompt : String) {formula : String} {f : Formula}
    (hf : Formula.parse (withoutBlanks formula) = .ok f) :
    ((file bytes).add prompt formula).1 = .ok ⟨trimBlanks prompt, withoutBlanks formula⟩ := by
  rw [add_of_ok _ prompt hf]
  rfl

/-- **What adding does to a store that could be loaded.**  If nothing but blanks that may stand
between tokens is on the open line, the same exercises are loaded and the added one behind them.
Otherwise the store cannot be loaded any more, for the open line holds no record. -/
theorem open_line_decides_load_after_add {prompt formula : String} {r : Record}
    (hload : place.load = .ok es) (hadd : place.add prompt formula = (.ok r, after)) :
    ((openLine place.text).all Json.isSpace = true →
      ∃ e : Exercise, e.toRecord = r ∧ after.load = .ok (es ++ [e])) ∧
    ((openLine place.text).all Json.isSpace = false →
      after.load = .error (.badRecord (openNumber place.text) .illFormed)) := by
  obtain ⟨-, e, he, rfl⟩ := append_of_add hadd
  obtain ⟨htext, hafter⟩ := load_of_add hload hadd
  rw [hafter]
  refine ⟨?_, ?_⟩
  · intro hspace
    exact ⟨e, rfl, exercisesOfText_append_of_isSpace htext hspace he⟩
  · intro hspace
    exact exercisesOfText_append_of_not_isSpace htext hspace e.toRecord

/-- An exercise is added behind spaces that stand on the open line. -/
theorem load_after_add_behind_spaces :
    let place := file "\x7b\"prompt\":\"Tea is hot\",\"formula\":\"p\"\x7d\r\n  ".toUTF8
    let tea : Exercise := ⟨.atom (.variable .p), "Tea is hot", ∅⟩
    place.load = .ok [tea] ∧
      (place.add "Milk is cold" "q").1 = .ok ⟨"Milk is cold", "q"⟩ ∧
      ∃ e : Exercise, e.toRecord = ⟨"Milk is cold", "q"⟩ ∧
        (place.add "Milk is cold" "q").2.load = .ok ([tea] ++ [e]) := by
  intro place tea
  have hlines : Lines.ofText "\x7b\"prompt\":\"Tea is hot\",\"formula\":\"p\"\x7d\r\n  ".toList =
      [tea.toRecord.line, [' ', ' ']] := by decide
  have hload : place.load = .ok [tea] := by
    rw [load_toUTF8, exercisesOfText, hlines, exercisesOfLines, all_isBlank_line,
      exerciseOfLine_line ⟨by decide, rfl⟩]
    rfl
  have hadd : (place.add "Milk is cold" "q").1 = .ok ⟨"Milk is cold", "q"⟩ :=
    add_file _ "Milk is cold" (f := .atom (.variable .q)) (Formula.parse_eq_ok_iff.mpr (by decide))
  refine ⟨hload, hadd, ?_⟩
  refine (open_line_decides_load_after_add hload (Prod.ext hadd rfl)).1 ?_
  rw [text_toUTF8]
  decide

/-- A record that no line feed ends is lost when an exercise is added. -/
theorem add_spoils_open_record :
    let place := file "\x7b\"prompt\":\"Tea is hot\",\"formula\":\"p\"\x7d".toUTF8
    let tea : Exercise := ⟨.atom (.variable .p), "Tea is hot", ∅⟩
    place.load = .ok [tea] ∧
      (place.add "Milk is cold" "q").1 = .ok ⟨"Milk is cold", "q"⟩ ∧
      (place.add "Milk is cold" "q").2.load = .error (.badRecord 1 .illFormed) ∧
      ¬ ∃ e : Exercise, e.toRecord = ⟨"Milk is cold", "q"⟩ ∧
        (place.add "Milk is cold" "q").2.load = .ok ([tea] ++ [e]) := by
  intro place tea
  have hlines : Lines.ofText "\x7b\"prompt\":\"Tea is hot\",\"formula\":\"p\"\x7d".toList =
      [tea.toRecord.line] := by decide
  have hload : place.load = .ok [tea] := by
    rw [load_toUTF8, exercisesOfText, hlines, exercisesOfLines, all_isBlank_line,
      exerciseOfLine_line ⟨by decide, rfl⟩]
    rfl
  have hadd : (place.add "Milk is cold" "q").1 = .ok ⟨"Milk is cold", "q"⟩ :=
    add_file _ "Milk is cold" (f := .atom (.variable .q)) (Formula.parse_eq_ok_iff.mpr (by decide))
  obtain ⟨htext, hafter⟩ := load_of_add hload (Prod.ext hadd rfl)
  rw [text_toUTF8] at htext hafter
  rw [exercisesOfText_append_of_not_isSpace htext (by decide)] at hafter
  refine ⟨hload, hadd, hafter, ?_⟩
  rintro ⟨e, -, hloaded⟩
  rw [hafter] at hloaded
  cases hloaded

end Place
end Sentential
