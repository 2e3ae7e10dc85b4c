/-
# The connective in front of a text, found twice

`Connective.leading?` cuts the text into bytes: two of them, and if that finds nothing the first
character.  `Reader.binaryConnective` takes characters: two of them, and if that finds nothing one
from the same place.  Both find the connective whose token the text begins with, and differ only in
negation, which the look-up finds and the reader refuses.

* `cutBytes_eq_some_iff`, `isSome_cutBytes_iff`: a text is cut behind so many bytes where a
  character ends there, and nowhere else;
* `Connective.leading?_eq_some_iff`: the look-up;
* `Reader.binaryConnective_cases`: the reader;
* `connective_readers_agree`: the two beside each other.
-/
import Sentential.Connective.Leading
import Sentential.Proofs.Formula.Reading

namespace Sentential

/-! ## 1. Cutting behind a number of bytes -/

theorem utf8ByteSize_ofList_cons (c : Char) (s : List Char) :
    (String.ofList (c :: s)).utf8ByteSize = c.utf8Size + (String.ofList s).utf8ByteSize := by
  rw [String.ofList_cons, String.utf8ByteSize_append, String.utf8ByteSize_singleton]

/-- What is cut off takes as many bytes as it should. -/
theorem utf8ByteSize_of_cutBytes {n : Nat} {s front back : List Char}
    (h : cutBytes n s = some (front, back)) : (String.ofList front).utf8ByteSize = n := by
  induction s generalizing n front with
  | nil =>
    cases n with
    | zero =>
      obtain ⟨rfl, -⟩ := Prod.mk.inj (Option.some.inj h)
      rfl
    | succ n => exact absurd h (by simp [cutBytes])
  | cons c s ih =>
    cases n with
    | zero =>
      obtain ⟨rfl, -⟩ := Prod.mk.inj (Option.some.inj h)
      rfl
    | succ n =>
      rw [cutBytes] at h
      split at h
      · next hc =>
        obtain ⟨⟨front', back'⟩, h', hp⟩ := Option.map_eq_some_iff.mp h
        obtain ⟨rfl, rfl⟩ := Prod.mk.inj hp
        rw [utf8ByteSize_ofList_cons, ih h']
        omega
      · exact absurd h (by simp)

/-- The bytes of some characters can be cut off. -/
theorem cutBytes_append_right (front back : List Char) :
    cutBytes (String.ofList front).utf8ByteSize (front ++ back) = some (front, back) := by
  induction front with
  | nil => cases back <;> rfl
  | cons c front ih =>
    have hpos := c.utf8Size_pos
    obtain ⟨n, hn⟩ : ∃ n, c.utf8Size + (String.ofList front).utf8ByteSize = n + 1 :=
      ⟨c.utf8Size + (String.ofList front).utf8ByteSize - 1, by omega⟩
    have hrest : n + 1 - c.utf8Size = (String.ofList front).utf8ByteSize := by omega
    rw [utf8ByteSize_ofList_cons, hn, List.cons_append, cutBytes, if_pos (by omega), hrest, ih]
    rfl

/-- **A text is cut between two characters**, and there it is cut. -/
theorem cutBytes_eq_some_iff {n : Nat} {s front back : List Char} :
    cutBytes n s = some (front, back) ↔
      s = front ++ back ∧ (String.ofList front).utf8ByteSize = n := by
  constructor
  · intro h
    exact ⟨(cutBytes_append h).symm, utf8ByteSize_of_cutBytes h⟩
  · rintro ⟨rfl, rfl⟩
    exact cutBytes_append_right front back

/-- The first character can be cut off, however many bytes it takes. -/
theorem cutBytes_first (x : Char) (s : List Char) :
    cutBytes x.utf8Size (x :: s) = some ([x], s) := by
  refine cutBytes_eq_some_iff.mpr ⟨rfl, ?_⟩
  rw [utf8ByteSize_ofList_cons, String.ofList_nil, String.utf8ByteSize_empty, Nat.add_zero]

/-- The places at which a text can be cut are those at which no character is split. -/
theorem isSome_cutBytes_iff {n : Nat} {s : List Char} :
    (cutBytes n s).isSome ↔ (String.Pos.Raw.mk n).IsValid (String.ofList s) := by
  rw [String.Pos.Raw.isValid_ofList, Option.isSome_iff_exists]
  constructor
  · rintro ⟨⟨front, back⟩, h⟩
    obtain ⟨rfl, hn⟩ := cutBytes_eq_some_iff.mp h
    exact ⟨front.length, by rw [List.take_left, hn]⟩
  · rintro ⟨i, hn⟩
    exact ⟨(s.take i, s.drop i),
      cutBytes_eq_some_iff.mpr ⟨(List.take_append_drop i s).symm, hn.symm⟩⟩

/-! ## 2. The look-up -/

namespace Connective

variable {c : Connective} {s r : List Char}

/-- A token takes as many bytes as it has characters. -/
theorem utf8ByteSize_token (c : Connective) :
    (String.ofList c.token).utf8ByteSize = c.token.length := by
  cases c with
  | negation => decide
  | binary op => cases op <;> decide

theorem leadingTwo?_eq_some_iff :
    leadingTwo? s = some (c, r) ↔ s = c.token ++ r ∧ c.token.length = 2 := by
  unfold leadingTwo?
  constructor
  · intro h
    obtain ⟨⟨token, rest⟩, hcut, h⟩ := Option.bind_eq_some_iff.mp h
    obtain ⟨c', hc', hp⟩ := Option.map_eq_some_iff.mp h
    obtain ⟨rfl, rfl⟩ := Prod.mk.inj hp
    obtain ⟨rfl, hlen⟩ := ofTokenOfLength?_eq_some_iff.mp hc'
    exact ⟨(cutBytes_append hcut).symm, hlen⟩
  · rintro ⟨rfl, hlen⟩
    have hcut : cutBytes 2 (c.token ++ r) = some (c.token, r) :=
      cutBytes_eq_some_iff.mpr ⟨rfl, by rw [utf8ByteSize_token, hlen]⟩
    have hc : ofTokenOfLength? 2 c.token = some c :=
      ofTokenOfLength?_eq_some_iff.mpr ⟨rfl, hlen⟩
    simp only [hcut, Option.bind_some, hc, Option.map_some]

theorem leadingOne?_eq_some_iff :
    leadingOne? s = some (c, r) ↔ s = c.token ++ r ∧ c.token.length = 1 := by
  constructor
  · intro h
    cases s with
    | nil => exact absurd h (by simp [leadingOne?])
    | cons x s =>
      obtain ⟨c', hc', hp⟩ := Option.map_eq_some_iff.mp h
      obtain ⟨rfl, rfl⟩ := Prod.mk.inj hp
      obtain ⟨htoken, hlen⟩ := ofTokenOfLength?_eq_some_iff.mp hc'
      rw [htoken]
      exact ⟨rfl, hlen⟩
  · rintro ⟨rfl, hlen⟩
    obtain ⟨x, hx⟩ := List.length_eq_one_iff.mp hlen
    rw [hx, List.singleton_append, leadingOne?,
      ofTokenOfLength?_eq_some_iff.mpr ⟨hx, List.length_singleton⟩, Option.map_some]

/-- **The look-up finds the connective that the text begins with.**  The longer tokens are tried
first, but since no token is the beginning of another one the order makes no difference. -/
theorem leading?_eq_some_iff : leading? s = some (c, r) ↔ s = c.token ++ r := by
  constructor
  · intro h
    rcases Option.or_eq_some_iff.mp h with h | ⟨-, h⟩
    · exact (leadingTwo?_eq_some_iff.mp h).1
    · exact (leadingOne?_eq_some_iff.mp h).1
  · intro hs
    refine Option.or_eq_some_iff.mpr ?_
    rcases c.length_token with hlen | hlen
    · refine .inr ⟨?_, leadingOne?_eq_some_iff.mpr ⟨hs, hlen⟩⟩
      refine Option.eq_none_iff_forall_ne_some.mpr ?_
      rintro ⟨c', r'⟩ h
      obtain ⟨hs', hlen'⟩ := leadingTwo?_eq_some_iff.mp h
      obtain ⟨rfl, -⟩ := token_append_inj (hs.symm.trans hs')
      omega
    · exact .inl (leadingTwo?_eq_some_iff.mpr ⟨hs, hlen⟩)

end Connective

/-! ## 3. The reader -/

namespace Reader

variable {text : List Char} {d : Nat}

/-- A token is read, or nothing is. -/
theorem takeToken_cases (k : Nat) (text : List Char) (d : Nat) :
    (∃ c rest h, (take k text d).refine text (Connective.ofTokenOfLength? (k + 1)) =
      .ok c rest d h) ∨
    (take k text d).refine text (Connective.ofTokenOfLength? (k + 1)) =
      .noMatch (.unexpected text) text d := by
  unfold take
  split
  · next hk =>
    have hlt : (text.drop (k + 1)).length < text.length := by
      rw [List.length_drop]
      omega
    rw [Outcome.refine]
    cases Connective.ofTokenOfLength? (k + 1) (text.take (k + 1)) with
    | some c => exact .inl ⟨c, _, hlt, rfl⟩
    | none => exact .inr rfl
  · exact .inr rfl

theorem connective_cases (text : List Char) (d : Nat) :
    (∃ c rest h, connective text d = .ok c rest d h) ∨
      connective text d = .noMatch (.unexpected text) text d := by
  unfold connective
  rcases takeToken_cases 1 text d with ⟨c, rest, h, htwo⟩ | htwo
  · exact .inl ⟨c, rest, h, by rw [htwo]; rfl⟩
  · rw [htwo]
    exact takeToken_cases 0 text d

/-- **A binary connective is read where the text begins with one.**  Otherwise nothing is read,
whether it was a negation that was refused or there was no connective at all. -/
theorem binaryConnective_cases (text : List Char) (d : Nat) :
    (∃ op rest h, text = op.token ++ rest ∧ binaryConnective text d = .ok op rest d h) ∨
      (∀ (op : BinaryConnective) rest, text ≠ op.token ++ rest) ∧
        binaryConnective text d = .noMatch (.missingConnective (String.ofList text)) text d := by
  have hmeets := binaryConnective_meets text d
  have hcases : (∃ op rest h, binaryConnective text d = .ok op rest d h) ∨
      binaryConnective text d = .noMatch (.missingConnective (String.ofList text)) text d := by
    unfold binaryConnective
    rcases connective_cases text d with ⟨c, rest, h, hc⟩ | hc
    · rw [hc]
      cases c with
      | negation => exact .inr rfl
      | binary op => exact .inl ⟨op, rest, h, rfl⟩
    · rw [hc]
      exact .inr rfl
  rcases hcases with ⟨op, rest, h, hop⟩ | hop
  · rw [hop] at hmeets
    exact .inl ⟨op, rest, h, hmeets.2, hop⟩
  · rw [hop] at hmeets
    exact .inr ⟨hmeets.2.2, hop⟩

theorem exists_binaryConnective_eq_ok_iff {op : BinaryConnective} {rest : List Char} :
    (∃ depth h, binaryConnective text d = .ok op rest depth h) ↔ text = op.token ++ rest := by
  rcases binaryConnective_cases text d with ⟨op', rest', h', ht, hread⟩ | ⟨hnone, hread⟩
  · rw [hread]
    constructor
    · rintro ⟨depth, h, heq⟩
      cases heq
      exact ht
    · intro ht'
      obtain ⟨rfl, rfl⟩ := BinaryConnective.token_append_inj (ht.symm.trans ht')
      exact ⟨d, h', rfl⟩
  · rw [hread]
    constructor
    · rintro ⟨depth, h, heq⟩
      cases heq
    · intro ht
      exact absurd ht (hnone op rest)

end Reader

/-! ## 4. Both -/

/-- **The reader and the look-up agree on every text.**  A binary connective is read exactly where
one is looked up, and leaves the same text.  Where the look-up finds nothing or a negation, the
reader asks for a connective in front of the whole text and has read none of it.  The look-up finds
the connective that the text begins with.  It never splits a character: there is a cut behind two
bytes only if it falls between characters, there always is one behind the first character, and what
follows a token that is found begins between characters. -/
theorem connective_readers_agree (s : List Char) (d : Nat) :
    (∀ op r, (∃ depth h, Reader.binaryConnective s d = .ok op r depth h) ↔
      Connective.leading? s = some (.binary op, r)) ∧
    (Connective.leading? s = none ∨ (∃ r, Connective.leading? s = some (.negation, r)) →
      Reader.binaryConnective s d = .noMatch (.missingConnective (String.ofList s)) s d) ∧
    (∀ c r, Connective.leading? s = some (c, r) ↔ s = c.token ++ r) ∧
    (∀ n front back, cutBytes n s = some (front, back) ↔
      s = front ++ back ∧ (String.ofList front).utf8ByteSize = n) ∧
    (∀ n, (cutBytes n s).isSome ↔ (String.Pos.Raw.mk n).IsValid (String.ofList s)) ∧
    (∀ x r, s = x :: r → cutBytes x.utf8Size s = some ([x], r)) ∧
    ∀ c r, Connective.leading? s = some (c, r) →
      (String.ofList c.token).rawEndPos.IsValid (String.ofList s) := by
  refine ⟨?_, ?_, ?_, ?_, ?_, ?_, ?_⟩
  · intro op r
    rw [Reader.exists_binaryConnective_eq_ok_iff, Connective.leading?_eq_some_iff,
      Connective.token]
  · intro hlead
    rcases Reader.binaryConnective_cases s d with ⟨op, r, h, hs, -⟩ | ⟨-, hread⟩
    · have hop : Connective.leading? s = some (.binary op, r) :=
        Connective.leading?_eq_some_iff.mpr hs
      rw [hop] at hlead
      rcases hlead with hnone | ⟨r', hneg⟩
      · cases hnone
      · cases hneg
    · exact hread
  · exact fun c r => Connective.leading?_eq_some_iff
  · exact fun n front back => cutBytes_eq_some_iff
  · exact fun n => isSome_cutBytes_iff
  · rintro x r rfl
    exact cutBytes_first x r
  · intro c r hlead
    refine String.Pos.Raw.isValid_iff_exists_append.mpr ⟨_, String.ofList r, ?_, rfl⟩
    rw [Connective.leading?_eq_some_iff.mp hlead, String.ofList_append]

/-- A tilde in front of a letter of two bytes: there is no cut behind two bytes, so the look-up
finds the tilde alone, which the reader refuses. -/
theorem tilde_before_wide_letter_is_refused :
    cutBytes 2 ['~', 'é'] = none ∧
      Connective.leading? ['~', 'é'] = some (.negation, ['é']) ∧
      Reader.binaryConnective ['~', 'é'] 3 =
        .noMatch (.missingConnective "~é") ['~', 'é'] 3 := by
  have hlead : Connective.leading? ['~', 'é'] = some (.negation, ['é']) := by decide
  exact ⟨by decide, hlead, (connective_readers_agree ['~', 'é'] 3).2.1 (.inr ⟨_, hlead⟩)⟩

end Sentential
