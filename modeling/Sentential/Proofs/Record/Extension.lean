/-
# A line that goes on behind its record

Only blanks may follow the record on a line.  If a line that holds a record is not ended and another
record is appended, the reader comes to the same record and then to the brace of the second one, so
the line holds no record any more.

* `Record.ofLine_append_brace`: a line on which a record is followed by a brace;
* `Record.ofLine_append_of_isSpace`, `Record.ofLine_append_of_isBlank`: a record behind blanks.
-/
import Mathlib.Data.List.TakeWhile
import Sentential.Proofs.Json.Extension
import Sentential.Record.Line
import Sentential.Text.Blank

namespace Sentential
namespace Record

open Json

variable (more s : List Char)

/-! ## 1. Blanks in front of a token -/

theorem skipSpace_append_of_cons {s cs : List Char} {c : Char} (h : skipSpace s = c :: cs) :
    skipSpace (s ++ more) = c :: (cs ++ more) := by
  rw [skipSpace] at h
  rw [skipSpace, List.dropWhile_append, h]
  rfl

theorem skipSpace_append_of_nil {s : List Char} (h : skipSpace s = []) :
    skipSpace (s ++ more) = skipSpace more := by
  rw [skipSpace] at h
  rw [skipSpace, List.dropWhile_append, h]
  rfl

/-! ## 2. Members -/

theorem follows_readString (c : Char) :
    Follows (Read.Extended more) (readString c s) (readString c (s ++ more)) := by
  unfold readString
  refine Follows.ite (fun _ => ?_) fun _ => Follows.error
  exact (follows_readText more s).map fun _ _ h => h.map _

theorem passColon_eq_ok_iff {s : List Char} {r : Rest s.length} :
    passColon s = .ok r ↔ skipSpace s = ':' :: r.val := by
  unfold passColon
  split
  · next h => simp [h]
  · next c rest h =>
    split
    · next hc => simp [h, hc, Subtype.ext_iff]
    · next hc => simp [h, hc]

theorem follows_passColon :
    Follows (Rest.Extended more) (passColon s) (passColon (s ++ more)) := by
  intro r hr
  have hmore := skipSpace_append_of_cons more (passColon_eq_ok_iff.mp hr)
  have hle := length_skipSpace_le (s ++ more)
  rw [hmore, List.length_cons] at hle
  exact ⟨⟨r.val ++ more, by omega⟩, passColon_eq_ok_iff.mpr hmore, rfl⟩

/-- The same value, and the same text left with more behind it. -/
def Kept {α : Type} {n m : Nat} (more : List Char) (r : α × Rest n) (r' : α × Rest m) : Prop :=
  r'.1 = r.1 ∧ Rest.Extended more r.2 r'.2

theorem Kept.map {α β : Type} {n m : Nat} {more : List Char} {r : α × Rest n} {r' : α × Rest m}
    (h : Kept more r r') (f : α → β) : Kept more (f r.1, r.2) (f r'.1, r'.2) :=
  ⟨congrArg f h.1, h.2⟩

theorem follows_readField (fields : Fields) (key tail : List Char) :
    Follows (Kept ('{' :: tail)) (readField fields key s)
      (readField fields key (s ++ '{' :: tail)) := by
  unfold readField
  extract_lets read read'
  have hread : Follows (Kept ('{' :: tail)) read read' := by
    unfold read read'
    split
    · exact Follows.error
    · next c rest h =>
      have hmore := skipSpace_append_of_cons ('{' :: tail) h
      split
      · next h' =>
        rw [hmore] at h'
        cases h'
      · next h' =>
        rw [hmore] at h'
        cases h'
        exact (follows_readString _ rest c).map fun _ _ h => h
  refine Follows.ite (fun _ => ?_) fun _ => Follows.ite (fun _ => ?_) fun _ => ?_
  · exact hread.map fun _ _ h => h.map fun text => { fields with prompt? := some text }
  · exact hread.map fun _ _ h => h.map fun text => { fields with formula? := some text }
  · exact (follows_skipValue s tail).map fun _ _ h => ⟨rfl, h⟩

theorem nextMember_eq_ok_iff {first : Bool} {s : List Char} {r : Read Bool s.length} :
    nextMember first s = .ok r ↔
      (skipSpace s = '}' :: r.rest ∧ r.value = false) ∨
      (first = true ∧ skipSpace s = '"' :: r.rest ∧ r.value = true) ∨
      (first = false ∧ ∃ t, skipSpace s = ',' :: t ∧ skipSpace t = '"' :: r.rest ∧
        r.value = true) := by
  rcases r with ⟨value, rest, hlt⟩
  unfold nextMember
  split
  · next h => simp [h]
  · next c t h =>
    by_cases hend : c = '}'
    · simp [h, hend, and_comm]
    · cases first with
      | true =>
        by_cases hquote : c = '"'
        · simp [h, hquote, and_comm]
        · simp [h, hend, hquote]
      | false =>
        by_cases hcomma : c = ','
        · rw [if_neg hend, if_neg Bool.false_ne_true, if_pos hcomma]
          split
          · next ht => simp [h, hcomma, ht]
          · next d t' ht =>
            by_cases hquote : d = '"'
            · simp [h, hcomma, ht, hquote, and_comm]
            · simp [h, hcomma, ht, hquote]
        · simp [h, hend, hcomma]

theorem follows_nextMember (first : Bool) :
    Follows (Read.Extended more) (nextMember first s) (nextMember first (s ++ more)) := by
  rintro ⟨value, rest, hlt⟩ hr
  have hlt' : (rest ++ more).length < (s ++ more).length := by
    rw [List.length_append, List.length_append]
    omega
  refine ⟨⟨value, rest ++ more, hlt'⟩, nextMember_eq_ok_iff.mpr ?_, rfl, rfl⟩
  rcases nextMember_eq_ok_iff.mp hr with ⟨h, hvalue⟩ | ⟨hfirst, h, hvalue⟩ |
      ⟨hfirst, t, h, ht, hvalue⟩
  · exact .inl ⟨skipSpace_append_of_cons more h, hvalue⟩
  · exact .inr (.inl ⟨hfirst, skipSpace_append_of_cons more h, hvalue⟩)
  · exact .inr (.inr ⟨hfirst, t ++ more, skipSpace_append_of_cons more h,
      skipSpace_append_of_cons more ht, hvalue⟩)

theorem follows_readMember (fields : Fields) (tail : List Char) :
    Follows (Kept ('{' :: tail)) (readMember fields s) (readMember fields (s ++ '{' :: tail)) := by
  unfold readMember
  refine Follows.bind (follows_readText ('{' :: tail) s) ?_
  rintro key ⟨name, rest, hlt⟩ ⟨rfl, rfl⟩
  refine Follows.ite (fun _ => Follows.error) fun _ => ?_
  refine Follows.bind (follows_passColon ('{' :: tail) key.rest) ?_
  rintro behind ⟨rest, hle⟩ rfl
  refine Follows.bind (follows_readField behind.val fields key.value tail) ?_
  rintro field ⟨fields', rest, hle⟩ ⟨rfl, rfl⟩
  exact Follows.ok ⟨rfl, rfl⟩

/-! ## 3. Records -/

theorem readMembers_append_brace {first : Bool} {fields : Fields} {s rest : List Char} {r : Record}
    (tail : List Char) (h : readMembers first fields s = .ok (r, rest)) :
    readMembers first fields (s ++ '{' :: tail) = .ok (r, rest ++ '{' :: tail) := by
  induction first, fields, s using readMembers.induct with
  | case1 first fields s e he =>
    rw [readMembers, he] at h
    cases h
  | case2 first fields s found hfound hvalue e he =>
    rw [readMembers, hfound] at h
    simp only [if_pos hvalue, he] at h
    cases h
  | case3 first fields s found hfound hvalue fields' left hmember hlt hle ih =>
    rw [readMembers, hfound] at h
    simp only [if_pos hvalue, hmember] at h
    obtain ⟨⟨value, text, hlt'⟩, hfound', rfl, rfl⟩ :=
      follows_nextMember ('{' :: tail) s first found hfound
    obtain ⟨⟨fields'', text, hle'⟩, hmember', hfields, htext⟩ :=
      follows_readMember found.rest fields tail (fields', left) hmember
    obtain rfl : fields'' = fields' := hfields
    obtain rfl : text = left.val ++ '{' :: tail := htext
    rw [readMembers, hfound']
    simp only [if_pos hvalue, hmember']
    exact ih h
  | case4 first fields s found hfound hvalue =>
    rw [readMembers, hfound] at h
    simp only [if_neg hvalue] at h
    obtain ⟨r', hr', heq⟩ := map_eq_ok_iff.mp h
    cases heq
    obtain ⟨⟨value, text, hlt'⟩, hfound', rfl, rfl⟩ :=
      follows_nextMember ('{' :: tail) s first found hfound
    rw [readMembers, hfound']
    simp only [if_neg hvalue, hr']
    rfl

theorem readString_eq_ok {c : Char} {s : List Char} {r : Read String s.length}
    (h : readString c s = .ok r) : c = '"' := by
  unfold readString at h
  split at h
  · next hc => exact hc
  · cases h

theorem readList_eq_ok_iff {s rest : List Char} {r : Record} :
    readList s = .ok (r, rest) ↔
      ∃ c t prompt u d v formula, skipSpace s = c :: t ∧ readString c t = .ok prompt ∧
        skipSpace prompt.rest = ',' :: u ∧ skipSpace u = d :: v ∧ readString d v = .ok formula ∧
        skipSpace formula.rest = ']' :: rest ∧ ⟨prompt.value, formula.value⟩ = r := by
  constructor
  · intro h
    unfold readList at h
    split at h
    · cases h
    · cases h
    · next c t _ hs =>
      obtain ⟨prompt, hprompt, h⟩ := bind_eq_ok_iff.mp h
      split at h
      · cases h
      · cases h
      · next u hcomma =>
        split at h
        · cases h
        · cases h
        · next d v _ hu =>
          obtain ⟨formula, hformula, h⟩ := bind_eq_ok_iff.mp h
          split at h
          · cases h
          · next hend =>
            cases h
            exact ⟨c, t, prompt, u, d, v, formula, hs, hprompt, hcomma, hu, hformula, hend, rfl⟩
          · cases h
      · cases h
  · rintro ⟨c, t, prompt, u, d, v, formula, hs, hprompt, hcomma, hu, hformula, hend, rfl⟩
    obtain rfl := readString_eq_ok hprompt
    obtain rfl := readString_eq_ok hformula
    rw [readList, hs]
    simp [hprompt, hcomma, hu, hformula, hend, bind, Except.bind]

theorem readList_append_brace {s rest : List Char} {r : Record} (tail : List Char)
    (h : readList s = .ok (r, rest)) :
    readList (s ++ '{' :: tail) = .ok (r, rest ++ '{' :: tail) := by
  obtain ⟨c, t, prompt, u, d, v, formula, hs, hprompt, hcomma, hu, hformula, hend, rfl⟩ :=
    readList_eq_ok_iff.mp h
  obtain ⟨⟨value, text, hlt⟩, hprompt', rfl, rfl⟩ :=
    follows_readString ('{' :: tail) t c prompt hprompt
  obtain ⟨⟨value', text', hlt'⟩, hformula', rfl, rfl⟩ :=
    follows_readString ('{' :: tail) v d formula hformula
  exact readList_eq_ok_iff.mpr ⟨c, _, _, _, d, _, _, skipSpace_append_of_cons _ hs, hprompt',
    skipSpace_append_of_cons _ hcomma, skipSpace_append_of_cons _ hu, hformula',
    skipSpace_append_of_cons _ hend, rfl⟩

/-! ## 4. Lines -/

theorem alone_eq_ok_iff {r r' : Record} {rest : List Char} :
    alone r rest = .ok r' ↔ skipSpace rest = [] ∧ r = r' := by
  unfold alone
  split
  · next h => simp [List.isEmpty_iff.mp h]
  · next h =>
    rw [List.isEmpty_iff] at h
    simp [h]

theorem alone_append_brace {r r' : Record} {rest : List Char} (tail : List Char)
    (h : alone r rest = .ok r') : alone r (rest ++ '{' :: tail) = .error .illFormed := by
  obtain ⟨hrest, -⟩ := alone_eq_ok_iff.mp h
  rw [alone, skipSpace_append_of_nil _ hrest]
  rfl

/-- **A line that holds a record holds none any more with a brace behind it.** -/
theorem ofLine_append_brace {s : List Char} {r : Record} (tail : List Char)
    (h : ofLine s = .ok r) : ofLine (s ++ '{' :: tail) = .error .illFormed := by
  unfold ofLine at h
  split at h
  · cases h
  · next t hs =>
    obtain ⟨found, hlist, halone⟩ := bind_eq_ok_iff.mp h
    rw [ofLine, skipSpace_append_of_cons _ hs]
    simp only [readList_append_brace tail hlist]
    exact alone_append_brace tail halone
  · next t hs =>
    obtain ⟨found, hmembers, halone⟩ := bind_eq_ok_iff.mp h
    rw [ofLine, skipSpace_append_of_cons _ hs]
    simp only [readMembers_append_brace tail hmembers]
    exact alone_append_brace tail halone
  · cases h

theorem skipSpace_eq_nil_iff {s : List Char} : skipSpace s = [] ↔ s.all isSpace := by
  rw [skipSpace, List.all_eq_true]
  exact List.dropWhile_eq_nil_iff

/-- The blanks that may stand between tokens are passed over. -/
theorem ofLine_append_of_isSpace {s : List Char} (h : s.all isSpace) (t : List Char) :
    ofLine (s ++ t) = ofLine t := by
  rw [ofLine, ofLine, skipSpace_append_of_nil t (skipSpace_eq_nil_iff.mpr h)]

theorem ne_of_isBlank {c d : Char} (hc : isBlank c) (hd : isBlank d = false) : c ≠ d := by
  rintro rfl
  rw [hd] at hc
  cases hc

theorem isDigit_of_isBlank {c : Char} (h : isBlank c) : c.isDigit = false := by
  rw [← Bool.not_eq_true]
  intro hdigit
  have hrange : 48 ≤ c.toNat ∧ c.toNat ≤ 57 := by
    simpa [Char.isDigit, UInt32.le_iff_toNat_le] using hdigit
  simp [isBlank] at h
  omega

/-- No value begins with a blank. -/
theorem faultOf_of_isBlank {c : Char} (h : isBlank c) (s : List Char) :
    faultOf c s = .illFormed := by
  have hbracket : ¬ (c = '[' ∨ c = '{') :=
    not_or.mpr ⟨ne_of_isBlank h rfl, ne_of_isBlank h rfl⟩
  simp only [faultOf, if_neg (ne_of_isBlank h (d := 'n') rfl),
    if_neg (ne_of_isBlank h (d := 't') rfl), if_neg (ne_of_isBlank h (d := 'f') rfl),
    if_neg (ne_of_isBlank h (d := '-') rfl), if_neg (ne_of_isBlank h (d := '"') rfl),
    if_neg hbracket, isDigit_of_isBlank h, Bool.false_eq_true, if_false]

/-- A blank of another kind belongs to no token. -/
theorem ofLine_append_of_isBlank {s : List Char} (hblank : s.all isBlank)
    (hspace : s.all isSpace = false) (t : List Char) :
    ofLine (s ++ t) = .error .illFormed := by
  cases hs : skipSpace s with
  | nil => simp [skipSpace_eq_nil_iff.mp hs] at hspace
  | cons c cs =>
    have hc : isBlank c := by
      have hmem : c ∈ skipSpace s := hs ▸ List.mem_cons_self
      exact List.all_eq_true.mp hblank c ((List.dropWhile_sublist isSpace).subset hmem)
    rw [ofLine, skipSpace_append_of_cons t hs]
    split
    · next h => cases h
    · next h =>
      cases h
      cases hc
    · next h =>
      cases h
      cases hc
    · next h =>
      cases h
      rw [faultOf_of_isBlank hc]

end Record
end Sentential
