/-
# A record survives being written as a line

The line of a record is an object with two members, and the reader of records takes it apart
again member by member.  It has no control characters, so it holds no line break and is one line
of the file that it is appended to.

* `Record.ofLine_line`: the record of a line that was written;
* `Record.isControl_line`: what does not stand in such a line.
-/
import Sentential.Proofs.Json.RoundTrip
import Sentential.Record.Line

namespace Sentential
namespace Record

open Json

/-! ## 1. The parts of an object -/

theorem nextMember_first (rest : List Char) :
    ∃ h, nextMember true ('"' :: rest) = .ok ⟨true, rest, h⟩ :=
  ⟨by simp, rfl⟩

theorem nextMember_comma (rest : List Char) :
    ∃ h, nextMember false (',' :: '"' :: rest) = .ok ⟨true, rest, h⟩ :=
  ⟨by simp only [List.length_cons]; omega, rfl⟩

theorem nextMember_end (rest : List Char) :
    ∃ h, nextMember false ('}' :: rest) = .ok ⟨false, rest, h⟩ :=
  ⟨by simp, rfl⟩

theorem passColon_cons (rest : List Char) : ∃ h, passColon (':' :: rest) = .ok ⟨rest, h⟩ :=
  ⟨by simp, rfl⟩

theorem readString_quote {s cs rest : List Char} (h : ReadsText s cs rest) :
    ∃ hlt, readString '"' s = .ok ⟨String.ofList cs, rest, hlt⟩ := by
  obtain ⟨hlt, hs⟩ := h
  refine ⟨hlt, ?_⟩
  rw [readString, if_pos rfl, hs]
  rfl

theorem readField_prompt {s cs rest : List Char} (fields : Fields) (h : ReadsText s cs rest) :
    ∃ hle, readField fields "prompt".toList ('"' :: s) =
      .ok ({ fields with prompt? := some (String.ofList cs) }, ⟨rest, hle⟩) := by
  obtain ⟨hlt, hs⟩ := readString_quote h
  refine ⟨by simp; omega, ?_⟩
  rw [readField, if_pos rfl]
  show ((readString '"' s).map _).map _ = _
  rw [hs]
  rfl

theorem readField_formula {s cs rest : List Char} (fields : Fields) (h : ReadsText s cs rest) :
    ∃ hle, readField fields "formula".toList ('"' :: s) =
      .ok ({ fields with formula? := some (String.ofList cs) }, ⟨rest, hle⟩) := by
  obtain ⟨hlt, hs⟩ := readString_quote h
  refine ⟨by simp; omega, ?_⟩
  rw [readField, if_neg (by decide), if_pos rfl]
  show ((readString '"' s).map _).map _ = _
  rw [hs]
  rfl

/-! ## 2. The members of an object -/

/-- A member is read if its key is, is a new one, and has a value that can be read. -/
theorem readMember_eq {fields after : Fields} {s t key rest : List Char}
    (hkey : ReadsText s key (':' :: t)) (hnew : fields.has key = false)
    (hvalue : ∃ h, readField fields key t = .ok (after, ⟨rest, h⟩)) :
    ∃ h, readMember fields s = .ok (after, ⟨rest, h⟩) := by
  obtain ⟨hlt, hkey⟩ := hkey
  obtain ⟨hle, hvalue⟩ := hvalue
  obtain ⟨hcolon, hpass⟩ := passColon_cons t
  rw [List.length_cons] at hlt
  refine ⟨by omega, ?_⟩
  rw [readMember, hkey]
  simp only [bind, Except.bind, hnew, Bool.false_eq_true, if_false, hpass, hvalue]

theorem readMembers_cons {first : Bool} {fields after : Fields} {s t rest : List Char}
    (hnext : ∃ h, nextMember first s = .ok ⟨true, t, h⟩)
    (hmember : ∃ h, readMember fields t = .ok (after, ⟨rest, h⟩)) :
    readMembers first fields s = readMembers false after rest := by
  obtain ⟨hlt, hnext⟩ := hnext
  obtain ⟨hle, hmember⟩ := hmember
  rw [readMembers, hnext]
  simp only [if_true, hmember]

theorem readMembers_end (fields : Fields) (rest : List Char) :
    readMembers false fields ('}' :: rest) = fields.toRecord.map fun r => (r, rest) := by
  obtain ⟨hlt, hnext⟩ := nextMember_end rest
  rw [readMembers, hnext]
  rfl

/-! ## 3. Lines -/

/-- The line of a record, one token after another. -/
theorem line_eq (r : Record) :
    r.line = '{' :: '"' :: ("prompt".toList ++ '"' :: ':' :: '"' ::
      (r.prompt.toList.flatMap encodeChar ++ '"' :: ',' :: '"' :: ("formula".toList ++ '"' ::
        ':' :: '"' :: (r.formula.toList.flatMap encodeChar ++ '"' :: ['}'])))) := by
  have hopening : "\x7b\"prompt\":".toList = '{' :: '"' :: ("prompt".toList ++ ['"', ':']) := by
    decide
  have hcomma : ",\"formula\":".toList = ',' :: '"' :: ("formula".toList ++ ['"', ':']) := by
    decide
  unfold line
  simp only [hopening, hcomma, encode, List.cons_append, List.append_assoc, List.nil_append]

/-- **A record is read back from its line.** -/
theorem ofLine_line (r : Record) : ofLine r.line = .ok r := by
  have hkey : "prompt".toList.flatMap encodeChar = "prompt".toList := by decide
  have hkey' : "formula".toList.flatMap encodeChar = "formula".toList := by decide
  have hprompt (rest : List Char) :
      ReadsText ("prompt".toList ++ '"' :: rest) "prompt".toList rest := by
    have h := readsText_encode "prompt".toList rest
    rwa [hkey] at h
  have hformula (rest : List Char) :
      ReadsText ("formula".toList ++ '"' :: rest) "formula".toList rest := by
    have h := readsText_encode "formula".toList rest
    rwa [hkey'] at h
  rw [line_eq]
  show readMembers true ⟨none, none⟩ _ >>= _ = _
  rw [readMembers_cons (nextMember_first _)
      (readMember_eq (hprompt _) rfl (readField_prompt _ (readsText_encode _ _))),
    readMembers_cons (nextMember_comma _)
      (readMember_eq (hformula _) rfl (readField_formula _ (readsText_encode _ _))),
    readMembers_end, String.ofList_toList, String.ofList_toList]
  rfl

/-- A record is written without control characters, so without a line break. -/
theorem isControl_line (r : Record) : ∀ x ∈ r.line, isControl x = false := by
  have hopening : "\x7b\"prompt\":".toList.any isControl = false := by decide
  have hcomma : ",\"formula\":".toList.any isControl = false := by decide
  intro x hx
  unfold line at hx
  simp only [List.mem_append] at hx
  rcases hx with (((hx | hx) | hx) | hx) | hx
  · exact Bool.eq_false_iff.mpr (List.any_eq_false.mp hopening x hx)
  · exact isControl_encode _ x hx
  · exact Bool.eq_false_iff.mpr (List.any_eq_false.mp hcomma x hx)
  · exact isControl_encode _ x hx
  · rw [List.mem_singleton.mp hx]
    decide

end Record
end Sentential
