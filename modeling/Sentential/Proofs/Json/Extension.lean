/-
# What has been read is read whatever follows

A reader goes from left to right and stops where its value ends, so a value that it has read from a
text is read from every longer text too, and what is appended is left behind it.  Only a number
could go on, so what is appended to one begins with a brace here.

* `Json.Follows`: two outcomes, the second with more text, and a rule for each way of combining;
* `Json.follows_readText`: strings;
* `Json.follows_skipValue`: values that are passed over.
-/
import Sentential.Json.Skip

namespace Sentential
namespace Json

/-! ## 1. Outcomes -/

section

variable {α β γ δ : Type} {R : α → β → Prop} {S : γ → δ → Prop}

/-- If the first reading succeeds, so does the second, with a related result. -/
def Follows (R : α → β → Prop) (x : Except Fault α) (y : Except Fault β) : Prop :=
  ∀ a, x = .ok a → ∃ b, y = .ok b ∧ R a b

theorem Follows.ok {a : α} {b : β} (h : R a b) : Follows R (.ok a) (.ok b) := by
  intro a' ha
  cases ha
  exact ⟨b, rfl, h⟩

theorem Follows.error {e : Fault} {y : Except Fault β} : Follows R (.error e) y := by
  intro a ha
  cases ha

theorem Follows.map {x : Except Fault α} {y : Except Fault β} {f : α → γ} {g : β → δ}
    (h : Follows R x y) (hfg : ∀ a b, R a b → S (f a) (g b)) : Follows S (x.map f) (y.map g) := by
  cases x with
  | error e => exact Follows.error
  | ok a =>
    obtain ⟨b, rfl, hab⟩ := h a rfl
    exact Follows.ok (hfg a b hab)

theorem Follows.bind {x : Except Fault α} {y : Except Fault β} {f : α → Except Fault γ}
    {g : β → Except Fault δ} (h : Follows R x y) (hfg : ∀ a b, R a b → Follows S (f a) (g b)) :
    Follows S (x >>= f) (y >>= g) := by
  cases x with
  | error e => exact Follows.error
  | ok a =>
    obtain ⟨b, rfl, hab⟩ := h a rfl
    exact hfg a b hab

theorem bind_eq_ok_iff {ε : Type} {f : α → Except ε γ} {x : Except ε α} {c : γ} :
    x >>= f = .ok c ↔ ∃ a, x = .ok a ∧ f a = .ok c := by
  cases x with
  | error e => simp [bind, Except.bind]
  | ok a => simp [bind, Except.bind]

theorem map_eq_ok_iff {ε : Type} {f : α → γ} {x : Except ε α} {c : γ} :
    x.map f = .ok c ↔ ∃ a, x = .ok a ∧ f a = c := by
  cases x with
  | error e => simp [Except.map]
  | ok a => simp [Except.map]

theorem Follows.ite {p : Prop} [Decidable p] {x x' : Except Fault α} {y y' : Except Fault β}
    (h : p → Follows R x y) (h' : ¬ p → Follows R x' y') :
    Follows R (if p then x else x') (if p then y else y') := by
  split
  · next hp => exact h hp
  · next hp => exact h' hp

end

section

variable {α β : Type} {n m : Nat}

/-- The same value with more text behind it. -/
def Read.Extended (more : List Char) (r : Read α n) (r' : Read α m) : Prop :=
  r'.value = r.value ∧ r'.rest = r.rest ++ more

theorem Read.Extended.map {more : List Char} {r : Read α n} {r' : Read α m}
    (h : r.Extended more r') (f : α → β) : (r.map f).Extended more (r'.map f) :=
  ⟨congrArg f h.1, h.2⟩

theorem Read.Extended.widen {more : List Char} {r : Read α n} {r' : Read α m}
    (h : r.Extended more r') {k l : Nat} (hk : n ≤ k) (hl : m ≤ l) :
    (r.widen hk).Extended more (r'.widen hl) :=
  h

/-- The same text that is left, with more behind it. -/
def Rest.Extended (more : List Char) (r : Rest n) (r' : Rest m) : Prop :=
  r'.val = r.val ++ more

/-- The same state of passing over a value, with more text behind it. -/
def Progress.Extended (more : List Char) (p : Progress n) (p' : Progress m) : Prop :=
  p'.expected = p.expected ∧ p'.brackets = p.brackets ∧ p'.rest.val = p.rest.val ++ more

end

/-! ## 2. Escapes -/

variable (more s : List Char)

theorem fewerBytes_append {n : Nat} {s : List Char} (h : fewerBytes n s = false) :
    fewerBytes n (s ++ more) = false := by
  induction s generalizing n with
  | nil =>
    cases n with
    | zero => cases more <;> rfl
    | succ n => cases h
  | cons c cs ih =>
    cases n with
    | zero => rfl
    | succ n => exact ih h

theorem follows_readHex :
    Follows (Read.Extended more) (readHex s) (readHex (s ++ more)) := by
  intro r hr
  unfold readHex at hr
  split at hr
  · cases hr
  · next hbytes =>
    have hmore := fewerBytes_append more (Bool.eq_false_iff.mpr hbytes)
    split at hr
    · next a b c d rest _ =>
      split at hr
      · next ha hb hc hd =>
        cases hr
        simp only [List.cons_append] at hmore ⊢
        rw [readHex, if_neg (Bool.eq_false_iff.mp hmore)]
        simp only [ha, hb, hc, hd]
        exact ⟨_, rfl, rfl, rfl⟩
      · cases hr
    · cases hr

theorem follows_readLowSurrogate (high : Nat) :
    Follows (Read.Extended more) (readLowSurrogate high s) (readLowSurrogate high (s ++ more)) := by
  unfold readLowSurrogate
  split
  · exact Follows.error
  · exact Follows.error
  · next tail =>
    simp only [List.cons_append]
    cases hr : readHex tail with
    | error e => exact Follows.error
    | ok r =>
      obtain ⟨r', hr', hrr'⟩ := follows_readHex more tail r hr
      simp only [hr', hrr'.1]
      refine Follows.ite ?_ ?_
      · intro _
        exact Follows.ok ((hrr'.map _).widen _ _)
      · intro _
        exact Follows.error
  · exact Follows.error

theorem follows_readUnicode :
    Follows (Read.Extended more) (readUnicode s) (readUnicode (s ++ more)) := by
  unfold readUnicode
  cases hr : readHex s with
  | error e => exact Follows.error
  | ok r =>
    obtain ⟨⟨value, rest, hlt⟩, hr', rfl, rfl⟩ := follows_readHex more s r hr
    simp only [hr']
    refine Follows.ite (fun _ => Follows.error) fun _ => Follows.ite (fun _ => ?_) fun _ => ?_
    · exact (follows_readLowSurrogate more r.rest r.value).map fun _ _ h => h.widen _ _
    · exact Follows.ok ⟨rfl, rfl⟩

theorem follows_readEscape :
    Follows (Read.Extended more) (readEscape s) (readEscape (s ++ more)) := by
  cases s with
  | nil => exact Follows.error
  | cons c rest =>
    rw [List.cons_append, readEscape, readEscape]
    refine Follows.ite (fun _ => ?_) fun _ => ?_
    · exact (follows_readUnicode more rest).map fun _ _ h => h.widen _ _
    · cases escaped? c with
      | none => exact Follows.error
      | some d => exact Follows.ok ⟨rfl, rfl⟩

theorem follows_skipEscape :
    Follows (Read.Extended more) (skipEscape s) (skipEscape (s ++ more)) := by
  cases s with
  | nil => exact Follows.error
  | cons c rest =>
    rw [List.cons_append, skipEscape, skipEscape]
    refine Follows.ite (fun _ => ?_) fun _ => ?_
    · exact (follows_readHex more rest).map fun _ _ h => (h.map _).widen _ _
    · cases escaped? c with
      | none => exact Follows.error
      | some d => exact Follows.ok ⟨rfl, rfl⟩

/-! ## 3. Strings -/

theorem follows_readText :
    Follows (Read.Extended more) (readText s) (readText (s ++ more)) := by
  induction s using readText.induct with
  | case1 =>
    rw [readText]
    exact Follows.error
  | case2 rest =>
    rw [List.cons_append, readText, readText, if_pos rfl, if_pos rfl]
    exact Follows.ok ⟨rfl, rfl⟩
  | case3 rest e he hquote =>
    rw [readText, if_neg hquote, if_pos rfl, he]
    exact Follows.error
  | case4 rest r hr hlt hquote ih =>
    obtain ⟨⟨value, rest', hlt'⟩, hr', rfl, rfl⟩ := follows_readEscape more rest r hr
    rw [List.cons_append, readText, readText, if_neg hquote, if_neg hquote, if_pos rfl, if_pos rfl,
      hr, hr']
    exact ih.map fun _ _ h => (h.map _).widen _ _
  | case5 c rest hquote hslash hcontrol =>
    rw [readText, if_neg hquote, if_neg hslash, if_pos hcontrol]
    exact Follows.error
  | case6 c rest hquote hslash hcontrol ih =>
    rw [List.cons_append, readText, readText, if_neg hquote, if_neg hquote, if_neg hslash,
      if_neg hslash, if_neg hcontrol, if_neg hcontrol]
    exact ih.map fun _ _ h => (h.map _).widen _ _

theorem follows_skipText :
    Follows (Read.Extended more) (skipText s) (skipText (s ++ more)) := by
  induction s using skipText.induct with
  | case1 =>
    rw [skipText]
    exact Follows.error
  | case2 rest =>
    rw [List.cons_append, skipText, skipText, if_pos rfl, if_pos rfl]
    exact Follows.ok ⟨rfl, rfl⟩
  | case3 rest e he hquote =>
    rw [skipText, if_neg hquote, if_pos rfl, he]
    exact Follows.error
  | case4 rest r hr hlt hquote ih =>
    obtain ⟨⟨value, rest', hlt'⟩, hr', rfl, rfl⟩ := follows_skipEscape more rest r hr
    rw [List.cons_append, skipText, skipText, if_neg hquote, if_neg hquote, if_pos rfl, if_pos rfl,
      hr, hr']
    exact ih.map fun _ _ h => h.widen _ _
  | case5 c rest hquote hslash hcontrol =>
    rw [skipText, if_neg hquote, if_neg hslash, if_pos hcontrol]
    exact Follows.error
  | case6 c rest hquote hslash hcontrol ih =>
    rw [List.cons_append, skipText, skipText, if_neg hquote, if_neg hquote, if_neg hslash,
      if_neg hslash, if_neg hcontrol, if_neg hcontrol]
    exact ih.map fun _ _ h => h.widen _ _

/-! ## 4. Numbers -/

theorem readLiteral_append {name s rest : List Char} (h : readLiteral name s = .ok rest) :
    readLiteral name (s ++ more) = .ok (rest ++ more) := by
  induction name generalizing s with
  | nil =>
    cases h
    rfl
  | cons c cs ih =>
    cases s with
    | nil => cases h
    | cons d s =>
      rw [readLiteral] at h
      split at h
      · next hd =>
        rw [List.cons_append, readLiteral, if_pos hd]
        exact ih h
      · cases h

section

variable {s rest : List Char} (tail : List Char)

/-- No digit follows the digits of the shorter text, so none is added. -/
theorem digits_append_brace :
    digits (s ++ '{' :: tail) = ((digits s).1, (digits s).2 ++ '{' :: tail) := by
  have hbrace : Char.isDigit '{' = false := by decide
  induction s with
  | nil => simp [digits, hbrace]
  | cons c cs ih =>
    rw [digits, Prod.mk.injEq] at ih
    obtain ⟨htake, hdrop⟩ := ih
    rw [digits, digits, List.cons_append, List.takeWhile_cons, List.takeWhile_cons,
      List.dropWhile_cons, List.dropWhile_cons, htake, hdrop]
    split
    · rfl
    · rfl

theorem readDigits_append_brace {ds : List Char} (h : readDigits s = .ok (ds, rest)) :
    readDigits (s ++ '{' :: tail) = .ok (ds, rest ++ '{' :: tail) := by
  cases s with
  | nil => cases h
  | cons c cs =>
    rw [readDigits] at h
    split at h
    · next hc =>
      rw [List.cons_append, readDigits, if_pos hc, ← List.cons_append, digits_append_brace tail]
      cases h
      rfl
    · cases h

theorem readSign_append_brace :
    readSign (s ++ '{' :: tail) = ((readSign s).1, (readSign s).2 ++ '{' :: tail) := by
  rcases s with _ | ⟨c, cs⟩
  · rfl
  · by_cases hminus : c = '-'
    · rw [hminus]
      rfl
    · by_cases hplus : c = '+'
      · rw [hplus]
        rfl
      · simp [readSign, hminus, hplus]

theorem readExponent_append_brace {n : Int} (h : readExponent s = .ok (n, rest)) :
    readExponent (s ++ '{' :: tail) = .ok (n, rest ++ '{' :: tail) := by
  cases s with
  | nil =>
    cases h
    rfl
  | cons c cs =>
    rw [readExponent] at h
    rw [List.cons_append, readExponent]
    split at h
    · next hc =>
      rw [if_pos hc, readSign_append_brace tail]
      split at h
      · cases h
      · next hds =>
        rw [readDigits_append_brace tail hds]
        cases h
        rfl
    · next hc =>
      rw [if_neg hc]
      cases h
      rfl

theorem readFraction_append_brace {ds : List Char} (h : readFraction s = .ok (ds, rest)) :
    readFraction (s ++ '{' :: tail) = .ok (ds, rest ++ '{' :: tail) := by
  unfold readFraction at h
  split at h
  · exact readDigits_append_brace tail h
  · next hpoint =>
    cases h
    rcases s with _ | ⟨c, cs⟩
    · rfl
    · have hc : c ≠ '.' := fun hc => hpoint cs (hc ▸ rfl)
      simp [readFraction, hc]

theorem readWhole_append_brace {ds : List Char} (h : readWhole s = .ok (ds, rest)) :
    readWhole (s ++ '{' :: tail) = .ok (ds, rest ++ '{' :: tail) := by
  unfold readWhole at h
  split at h
  · cases h
  · next cs =>
    split at h
    · next d ds' =>
      split at h
      · cases h
      · next hd =>
        cases h
        simp [readWhole, hd]
    · cases h
      rfl
  · next hnil hzero =>
    have hs : readWhole (s ++ '{' :: tail) = readDigits (s ++ '{' :: tail) := by
      rcases s with _ | ⟨c, cs⟩
      · exact absurd rfl hnil
      · have hc : c ≠ '0' := fun hc => hzero cs (hc ▸ rfl)
        simp [readWhole, hc]
    rw [hs]
    exact readDigits_append_brace tail h

theorem readNumber_append_brace {d : Decimal} (h : readNumber s = .ok (d, rest)) :
    readNumber (s ++ '{' :: tail) = .ok (d, rest ++ '{' :: tail) := by
  unfold readNumber at h
  split at h
  · cases h
  · next hwhole =>
    split at h
    · cases h
    · next hfraction =>
      split at h
      · cases h
      · next hexponent =>
        cases h
        simp only [readNumber, readWhole_append_brace tail hwhole,
          readFraction_append_brace tail hfraction, readExponent_append_brace tail hexponent]

end

/-! ## 5. Values that are passed over -/

theorem skipLiteral_eq_ok_iff {name s : List Char} {r : Rest s.length} :
    skipLiteral name s = .ok r ↔ readLiteral name s = .ok r.val := by
  unfold skipLiteral
  split
  · next h => simp [h]
  · next h => simp [h, Subtype.ext_iff]

theorem skipNumber_eq_ok_iff {s : List Char} {r : Rest s.length} :
    skipNumber s = .ok r ↔ ∃ d, readNumber s = .ok (d, r.val) := by
  unfold skipNumber
  split
  · next h => simp [h]
  · next h => simp [h, Subtype.ext_iff]

theorem skipNumberFrom_eq_ok_iff {c : Char} {s : List Char} {r : Rest s.length} :
    skipNumberFrom c s = .ok r ↔ ∃ d, readNumber (c :: s) = .ok (d, r.val) := by
  unfold skipNumberFrom
  split
  · next h => simp [h]
  · next h => simp [h, Subtype.ext_iff]

theorem follows_skipLiteral (name : List Char) :
    Follows (Rest.Extended more) (skipLiteral name s) (skipLiteral name (s ++ more)) := by
  intro r hr
  have hmore := readLiteral_append more (skipLiteral_eq_ok_iff.mp hr)
  exact ⟨⟨_, length_le_of_readLiteral hmore⟩, skipLiteral_eq_ok_iff.mpr hmore, rfl⟩

theorem follows_skipNumber (tail : List Char) :
    Follows (Rest.Extended ('{' :: tail)) (skipNumber s) (skipNumber (s ++ '{' :: tail)) := by
  intro r hr
  obtain ⟨d, hd⟩ := skipNumber_eq_ok_iff.mp hr
  have hmore := readNumber_append_brace tail hd
  have hlt := length_lt_of_readNumber hmore
  exact ⟨⟨_, Nat.le_of_lt hlt⟩, skipNumber_eq_ok_iff.mpr ⟨d, hmore⟩, rfl⟩

theorem follows_skipNumberFrom (c : Char) (tail : List Char) :
    Follows (Rest.Extended ('{' :: tail)) (skipNumberFrom c s)
      (skipNumberFrom c (s ++ '{' :: tail)) := by
  intro r hr
  obtain ⟨d, hd⟩ := skipNumberFrom_eq_ok_iff.mp hr
  have hmore := readNumber_append_brace tail hd
  have hlt := length_lt_of_readNumber hmore
  exact ⟨⟨_, Nat.le_of_lt_succ hlt⟩, skipNumberFrom_eq_ok_iff.mpr ⟨d, hmore⟩, rfl⟩

theorem follows_skipString :
    Follows (Rest.Extended more) (skipString s) (skipString (s ++ more)) :=
  (follows_skipText more s).map fun _ _ h => h.2

section

variable (brackets : List Bracket) (c : Char) (tail : List Char)

theorem follows_startValue :
    Follows (Progress.Extended ('{' :: tail)) (startValue brackets c s)
      (startValue brackets c (s ++ '{' :: tail)) := by
  unfold startValue
  refine Follows.ite (fun _ => Follows.ok ⟨rfl, rfl, rfl⟩) fun _ => ?_
  refine Follows.ite (fun _ => Follows.ok ⟨rfl, rfl, rfl⟩) fun _ => ?_
  refine Follows.map (R := Rest.Extended ('{' :: tail)) ?_ fun _ _ h => ⟨rfl, rfl, h⟩
  refine Follows.ite (fun _ => follows_skipString _ s) fun _ => ?_
  refine Follows.ite (fun _ => follows_skipLiteral _ s _) fun _ => ?_
  refine Follows.ite (fun _ => follows_skipLiteral _ s _) fun _ => ?_
  refine Follows.ite (fun _ => follows_skipLiteral _ s _) fun _ => ?_
  refine Follows.ite (fun _ => follows_skipNumber s tail) fun _ => ?_
  exact Follows.ite (fun _ => follows_skipNumberFrom s c tail) fun _ => Follows.error

theorem follows_startKey :
    Follows (Progress.Extended more) (startKey brackets c s) (startKey brackets c (s ++ more)) := by
  unfold startKey
  refine Follows.ite (fun _ => ?_) fun _ => Follows.error
  exact (follows_skipString more s).map fun _ _ h => ⟨rfl, rfl, h⟩

theorem follows_step (expected : Expected) :
    Follows (Progress.Extended ('{' :: tail)) (step expected brackets c s)
      (step expected brackets c (s ++ '{' :: tail)) := by
  unfold step
  split
  · exact follows_startValue s brackets c tail
  · exact follows_startKey _ s brackets c
  · exact Follows.ite (fun _ => Follows.ok ⟨rfl, rfl, rfl⟩) fun _ => Follows.error
  · next b outer =>
    refine Follows.ite (fun _ => Follows.ok ⟨rfl, rfl, rfl⟩) fun _ => ?_
    cases b with
    | list => exact follows_startValue s _ c tail
    | object => exact follows_startKey _ s _ c
  · refine Follows.ite (fun _ => Follows.ok ⟨rfl, rfl, rfl⟩) fun _ => ?_
    exact Follows.ite (fun _ => Follows.ok ⟨rfl, rfl, rfl⟩) fun _ => Follows.error
  · exact Follows.error
  · exact Follows.error

end

theorem follows_skipFrom (expected : Expected) (brackets : List Bracket) (tail : List Char) :
    Follows (Rest.Extended ('{' :: tail)) (skipFrom expected brackets s)
      (skipFrom expected brackets (s ++ '{' :: tail)) := by
  induction expected, brackets, s using skipFrom.induct with
  | case1 expected brackets s hdone =>
    rw [skipFrom.eq_def, skipFrom.eq_def _ _ (s ++ _), if_pos hdone, if_pos hdone]
    exact Follows.ok rfl
  | case2 expected brackets hdone =>
    rw [skipFrom, if_neg hdone]
    exact Follows.error
  | case3 expected brackets hdone c cs hspace ih =>
    rw [List.cons_append, skipFrom, skipFrom, if_neg hdone, if_neg hdone]
    simp only [if_pos hspace]
    exact ih.map fun _ _ h => h
  | case4 expected brackets hdone c cs hspace e he =>
    rw [skipFrom, if_neg hdone]
    simp only [if_neg hspace, he]
    exact Follows.error
  | case5 expected brackets hdone c cs hspace p hp hle ih =>
    obtain ⟨⟨expected', brackets', rest', hle'⟩, hp', rfl, rfl, rfl⟩ :=
      follows_step cs brackets c tail expected p hp
    rw [List.cons_append, skipFrom, skipFrom, if_neg hdone, if_neg hdone]
    simp only [if_neg hspace, hp, hp']
    exact ih.map fun _ _ h => h

/-- **A value that has been passed over is passed over whatever follows.** -/
theorem follows_skipValue (tail : List Char) :
    Follows (Rest.Extended ('{' :: tail)) (skipValue s) (skipValue (s ++ '{' :: tail)) :=
  follows_skipFrom s .value [] tail

end Json
end Sentential
