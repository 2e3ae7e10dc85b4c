/-
# A text survives being written as a JSON string

Every character of a text is written as itself or as one escape, and each of these is read as that
character (`Json.ReadsText.encodeChar`).  So the string that a text is written as is read as the
text, whatever follows it.  No line break is written as itself, which is what lets a record be a
line.

* `Json.readsText_encode`: the string of a text is read back;
* `Json.isControl_encode`: it has no control characters.
-/
import Sentential.Json.Text

namespace Sentential
namespace Json

/-! ## 1. Escapes -/

theorem hexValue?_hexDigit : ∀ n, n < 16 → hexValue? (hexDigit n) = some n := by
  decide

/-- A character is at least a byte. -/
theorem fewerBytes_of_le_length {n : Nat} {s : List Char} (h : n ≤ s.length) :
    fewerBytes n s = false := by
  induction s generalizing n with
  | nil =>
    obtain rfl := Nat.le_zero.mp h
    rfl
  | cons c cs ih =>
    cases n with
    | zero => rfl
    | succ n =>
      have hc := c.utf8Size_pos
      rw [List.length_cons] at h
      exact ih (by omega)

/-- Two digits behind two zeros are read as the number below 256 that they stand for. -/
theorem readHex_hexDigit {n : Nat} (hn : n < 256) (s : List Char) :
    ∃ h, readHex ('0' :: '0' :: hexDigit (n / 16) :: hexDigit (n % 16) :: s) = .ok ⟨n, s, h⟩ := by
  have hhigh := hexValue?_hexDigit (n / 16) (by omega)
  have hlow := hexValue?_hexDigit (n % 16) (by omega)
  have hzero : hexValue? '0' = some 0 := by decide
  have hvalue : ((0 * 16 + 0) * 16 + n / 16) * 16 + n % 16 = n := by omega
  refine ⟨by simp; omega, ?_⟩
  rw [readHex, fewerBytes_of_le_length (by simp), if_neg Bool.false_ne_true]
  simp only [hzero, hhigh, hlow, hvalue]

theorem readEscape_unicode {c : Char} (hc : isControl c = true) (s : List Char) :
    ∃ h, readEscape ('u' :: '0' :: '0' :: hexDigit (c.toNat / 16) :: hexDigit (c.toNat % 16) :: s) =
      .ok ⟨c, s, h⟩ := by
  have hlt : c.toNat < 0x20 := by simpa [isControl] using hc
  obtain ⟨h, hhex⟩ := readHex_hexDigit (n := c.toNat) (by omega) s
  refine ⟨by simp; omega, ?_⟩
  have hlow : isLowSurrogate c.toNat = false := by simp [isLowSurrogate]; omega
  have hhigh : isHighSurrogate c.toNat = false := by simp [isHighSurrogate]; omega
  rw [readEscape, if_pos rfl, readUnicode, hhex]
  simp only [hlow, hhigh, Read.map, Char.ofNat_toNat]
  rfl

theorem readEscape_letter {x c : Char} (hx : x ≠ 'u') (hc : escaped? x = some c) (s : List Char) :
    ∃ h, readEscape (x :: s) = .ok ⟨c, s, h⟩ := by
  refine ⟨by simp, ?_⟩
  rw [readEscape, if_neg hx, hc]

/-! ## 2. Strings -/

/-- A string behind its opening quote is read as the text `cs`, with `rest` behind it. -/
def ReadsText (s cs rest : List Char) : Prop :=
  ∃ h, readText s = .ok ⟨cs, rest, h⟩

theorem readsText_nil (rest : List Char) : ReadsText ('"' :: rest) [] rest := by
  refine ⟨by simp, ?_⟩
  rw [readText]
  rfl

theorem ReadsText.cons {c : Char} {s cs rest : List Char} (hquote : c ≠ '"') (hslash : c ≠ '\\')
    (hcontrol : isControl c = false) (h : ReadsText s cs rest) :
    ReadsText (c :: s) (c :: cs) rest := by
  obtain ⟨hlt, hs⟩ := h
  refine ⟨by simp; omega, ?_⟩
  rw [readText, if_neg hquote, if_neg hslash, hcontrol, if_neg Bool.false_ne_true, hs]
  rfl

theorem ReadsText.escape {c : Char} {s t cs rest : List Char}
    (hc : ∃ h, readEscape s = .ok ⟨c, t, h⟩) (ht : ReadsText t cs rest) :
    ReadsText ('\\' :: s) (c :: cs) rest := by
  obtain ⟨h, hc⟩ := hc
  obtain ⟨hlt, hs⟩ := ht
  refine ⟨by simp; omega, ?_⟩
  rw [readText, if_neg (by decide), if_pos rfl, hc]
  simp only [hs]
  rfl

/-- **What a character is written as is read as the character.** -/
theorem ReadsText.encodeChar {s cs rest : List Char} (c : Char) (h : ReadsText s cs rest) :
    ReadsText (encodeChar c ++ s) (c :: cs) rest := by
  have hletter : ∀ x d, x ≠ 'u' → escaped? x = some d →
      ReadsText (['\\', x] ++ s) (d :: cs) rest := fun x d hx hd =>
    ReadsText.escape (readEscape_letter hx hd s) h
  unfold Json.encodeChar
  split
  · next hc => exact hc ▸ hletter '"' '"' (by decide) rfl
  · next hquote =>
    split
    · next hc => exact hc ▸ hletter '\\' '\\' (by decide) rfl
    · next hslash =>
      split
      · next hc => exact hc ▸ hletter 'b' '\x08' (by decide) rfl
      split
      · next hc => exact hc ▸ hletter 'f' '\x0c' (by decide) rfl
      split
      · next hc => exact hc ▸ hletter 'n' '\n' (by decide) rfl
      split
      · next hc => exact hc ▸ hletter 'r' '\r' (by decide) rfl
      split
      · next hc => exact hc ▸ hletter 't' '\t' (by decide) rfl
      split
      · next hc => exact ReadsText.escape (readEscape_unicode (by simpa [isControl] using hc) s) h
      · next hc => exact h.cons hquote hslash (by simpa [isControl] using hc)

/-- **A text is read back from its string**, whatever follows the string. -/
theorem readsText_encode (cs rest : List Char) :
    ReadsText (cs.flatMap Json.encodeChar ++ '"' :: rest) cs rest := by
  induction cs with
  | nil => exact readsText_nil rest
  | cons c cs ih =>
    rw [List.flatMap_cons, List.append_assoc]
    exact ih.encodeChar c

/-! ## 3. What does not stand in a string -/

theorem isControl_hexDigit : ∀ n, n < 16 → isControl (hexDigit n) = false := by
  decide

/-- An escape of two characters. -/
theorem isControl_escape {c : Char} (hc : isControl c = false) :
    ∀ x ∈ ['\\', c], isControl x = false := by
  intro x hx
  simp only [List.mem_cons, List.not_mem_nil, or_false] at hx
  rcases hx with rfl | rfl
  · decide
  · exact hc

/-- A character is written without control characters. -/
theorem isControl_encodeChar (c : Char) : ∀ x ∈ encodeChar c, isControl x = false := by
  unfold encodeChar
  split
  · exact isControl_escape (by decide)
  split
  · exact isControl_escape (by decide)
  split
  · exact isControl_escape (by decide)
  split
  · exact isControl_escape (by decide)
  split
  · exact isControl_escape (by decide)
  split
  · exact isControl_escape (by decide)
  split
  · exact isControl_escape (by decide)
  split
  · intro x hx
    simp only [List.mem_cons, List.not_mem_nil, or_false] at hx
    rcases hx with rfl | rfl | rfl | rfl | rfl | rfl
    · decide
    · decide
    · decide
    · decide
    · exact isControl_hexDigit _ (by omega)
    · exact isControl_hexDigit _ (by omega)
  · next hc =>
    intro x hx
    rw [List.mem_singleton.mp hx]
    simpa [isControl] using hc

theorem isControl_encode (s : List Char) : ∀ x ∈ encode s, isControl x = false := by
  intro x hx
  rcases List.mem_append.mp hx with hx | hx
  · rcases List.mem_cons.mp hx with rfl | hx
    · decide
    · obtain ⟨c, -, hc⟩ := List.mem_flatMap.mp hx
      exact isControl_encodeChar c x hc
  · rw [List.mem_singleton.mp hx]
    decide

end Json
end Sentential
