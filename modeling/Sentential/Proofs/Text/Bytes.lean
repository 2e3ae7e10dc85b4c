/-
# The lines of a text as bytes

A byte below 128 stands for one character in UTF-8 and is no part of any other.  Line feed and
carriage return are such bytes, so cutting the bytes of a text into lines gives the bytes of its
lines.

* `toNat_eq_of_mem_utf8EncodeChar`: a byte below 128 is the character;
* `Lines.ofBytes_toUTF8`: the lines of bytes against those of characters.
-/
import Sentential.Proofs.Text.Lines

namespace Sentential

/-! ## 1. The bytes of a text -/

/-- The bytes of some characters. -/
def utf8 (s : List Char) : List UInt8 := s.flatMap String.utf8EncodeChar

theorem utf8_append (s t : List Char) : utf8 (s ++ t) = utf8 s ++ utf8 t :=
  List.flatMap_append

theorem utf8_concat (s : List Char) (c : Char) :
    utf8 (s ++ [c]) = utf8 s ++ String.utf8EncodeChar c := by
  rw [utf8_append, utf8, utf8, List.flatMap_singleton]

theorem toList_toByteArray_loop (bytes : ByteArray) (i : Nat) (read : List UInt8) :
    ByteArray.toList.loop bytes i read = read.reverse ++ bytes.data.toList.drop i := by
  fun_induction ByteArray.toList.loop bytes i read with
  | case1 i read hi ih =>
    have hlt : i < bytes.data.toList.length := hi
    rw [ih, List.drop_eq_getElem_cons hlt]
    simp [ByteArray.get!, hi]
  | case2 i read hi =>
    have hle : bytes.data.toList.length ≤ i := Nat.le_of_not_lt hi
    rw [List.drop_eq_nil_of_le hle, List.append_nil]

theorem toList_toUTF8 (s : String) : s.toUTF8.toList = utf8 s.toList := by
  have hbytes : s.toUTF8 = (utf8 s.toList).toByteArray := String.utf8Encode_toList.symm
  rw [hbytes, ByteArray.toList, toList_toByteArray_loop, List.data_toByteArray]
  rfl

/-! ## 2. Bytes below 128 -/

theorem le_toNat_ofNat {n m : Nat} (hm : 128 ≤ m) (hlt : n + m < 256) :
    128 ≤ (UInt8.ofNat (n + m)).toNat := by
  rw [UInt8.toNat_ofNat', Nat.mod_eq_of_lt hlt]
  omega

/-- A character that is not below 128 has no byte below 128. -/
theorem le_toNat_of_mem_utf8EncodeChar {c : Char} {b : UInt8} (hc : ¬ c.val.toNat ≤ 127)
    (h : b ∈ String.utf8EncodeChar c) : 128 ≤ b.toNat := by
  rw [String.utf8EncodeChar, if_neg hc] at h
  split at h
  · simp only [List.mem_cons, List.not_mem_nil, or_false] at h
    rcases h with rfl | rfl <;> exact le_toNat_ofNat (by decide) (by omega)
  · split at h
    · simp only [List.mem_cons, List.not_mem_nil, or_false] at h
      rcases h with rfl | rfl | rfl <;> exact le_toNat_ofNat (by decide) (by omega)
    · simp only [List.mem_cons, List.not_mem_nil, or_false] at h
      rcases h with rfl | rfl | rfl | rfl <;> exact le_toNat_ofNat (by decide) (by omega)

/-- **A byte below 128 is a character of its own.** -/
theorem toNat_eq_of_mem_utf8EncodeChar {c : Char} {b : UInt8} (hb : b.toNat < 128)
    (h : b ∈ String.utf8EncodeChar c) : c.toNat = b.toNat := by
  by_cases hc : c.val.toNat ≤ 127
  · rw [String.utf8EncodeChar, if_pos hc, List.mem_singleton] at h
    rw [h, UInt8.toNat_ofNat', Nat.mod_eq_of_lt (by omega)]
    rfl
  · have hle := le_toNat_of_mem_utf8EncodeChar hc h
    omega

theorem eq_lineFeed_of_mem {c : Char} (h : 10 ∈ String.utf8EncodeChar c) : c = '\n' :=
  Char.toNat_inj.mp (toNat_eq_of_mem_utf8EncodeChar (by decide) h)

theorem eq_carriageReturn_of_mem {c : Char} (h : 13 ∈ String.utf8EncodeChar c) : c = '\r' :=
  Char.toNat_inj.mp (toNat_eq_of_mem_utf8EncodeChar (by decide) h)

/-! ## 3. Lines -/

namespace Lines

/-- The carriage return at the end of some bytes is that of the characters. -/
theorem dropFinal_utf8 (s : List Char) : dropFinal 13 (utf8 s) = utf8 (dropFinal '\r' s) := by
  induction s using List.reverseRecOn with
  | nil => rfl
  | append_singleton s c =>
    rw [utf8_concat]
    by_cases hc : c = '\r'
    · rw [hc, dropFinal_concat]
      exact dropFinal_concat 13 (utf8 s)
    · rw [dropFinal_of_notMem String.utf8EncodeChar_ne_nil fun h => hc (eq_carriageReturn_of_mem h),
        dropFinal_of_notMem (List.cons_ne_nil c []) fun h => hc (List.mem_singleton.mp h).symm,
        utf8_concat]

/-- Cutting the bytes of a text gives the bytes of its pieces. -/
theorem cut_utf8 (s : List Char) :
    cut 10 (utf8 s) = ((cut '\n' s).1.map utf8, utf8 (cut '\n' s).2) := by
  -- from the end of the text, where a letter goes on with the open piece or ends it
  induction s using List.reverseRecOn with
  | nil => rfl
  | append_singleton s c ih =>
    rw [utf8_concat]
    by_cases hc : c = '\n'
    · rw [hc, cut_append_stop, List.map_append, List.map_singleton]
      show cut 10 (utf8 s ++ [10]) = _
      rw [cut_append_stop, ih]
      rfl
    · rw [cut_append_of_not_mem fun h => hc (eq_lineFeed_of_mem h),
        cut_append_of_not_mem fun h => hc (List.mem_singleton.mp h).symm, ih, utf8_concat]

theorem isEmpty_utf8 (s : List Char) : (utf8 s).isEmpty = s.isEmpty := by
  cases s with
  | nil => rfl
  | cons c s =>
    exact List.isEmpty_eq_false_iff.mpr
      (List.append_ne_nil_of_left_ne_nil String.utf8EncodeChar_ne_nil _)

/-- **The lines of the bytes of a text are the bytes of its lines.** -/
theorem ofBytes_toUTF8 (s : String) :
    ofBytes s.toUTF8.toList = (ofText s.toList).map utf8 := by
  have hdrop : dropFinal 13 ∘ utf8 = utf8 ∘ dropFinal '\r' := funext dropFinal_utf8
  rw [toList_toUTF8, ofBytes, split, cut_utf8]
  simp only [isEmpty_utf8, List.map_map, hdrop]
  rw [ofText, split, List.map_append, List.map_map]
  split <;> rfl

end Lines
end Sentential
