/-
# Saving an exercise loses nothing

A record keeps the prompt and the canonical text of the formula, so it describes the exercise that it
was made of in everything but the meaning of the variables, on which no verdict depends.  For this the
formula must be one that can be read.  Those that were read can be, and so can those that were drawn,
whose nesting is bounded by the number of their letters.

What is saved is in canonical form: the prompt has no blanks at its ends and the formula has none at
all.  To save it again changes nothing in it.  The sentences that are made up are in this form, since
they begin and end with a word, a letter, a quote or a parenthesis.

* `Exercise.ofRecord_eq_ok_iff`: records and the exercises they describe determine each other;
* `Record.Canonical.add`: a canonical record is saved as it stands;
* `Exercise.Drawn.canonical_toRecord`: the record of a random exercise is canonical;
* `Exercise.records_lose_nothing`: reading back, and saving once more.
-/
import Sentential.Proofs.English.Ends
import Sentential.Proofs.Exercise
import Sentential.Proofs.Formula.Blank
import Sentential.Proofs.Store.Gaining

namespace Sentential

/-! ## 1. Records and the exercises they describe -/

namespace Exercise

/-- **A record that describes an exercise is the record of that exercise**, and no other exercise
without a meaning has it. -/
theorem ofRecord_eq_ok_iff {r : Record} {e : Exercise} :
    ofRecord r = .ok e ↔ e.toRecord = r ∧ e.Recordable := by
  constructor
  · intro h
    cases hf : Formula.parse r.formula with
    | error err =>
      rw [ofRecord, hf] at h
      cases h
    | ok f =>
      rw [ofRecord, hf] at h
      obtain rfl := Except.ok.inj h
      obtain ⟨htext, hdepth⟩ := Formula.parse_eq_ok_iff.mp hf
      exact ⟨by rw [toRecord, ← htext], hdepth, rfl⟩
  · rintro ⟨rfl, he⟩
    exact he.ofRecord_toRecord

/-- The exercise that is left of one when its meaning is forgotten. -/
def meaningless (e : Exercise) : Exercise := { e with meaning := ∅ }

theorem judge_meaningless (e : Exercise) (answer : String) :
    e.meaningless.judge answer = e.judge answer := rfl

/-- What is read back is the exercise without its meaning, if its formula can be read at all. -/
theorem ofRecord_toRecord {e : Exercise} (h : e.formula.depth ≤ maxDepth) :
    ofRecord e.toRecord = .ok e.meaningless :=
  ofRecord_eq_ok_iff.mpr ⟨rfl, h, rfl⟩

end Exercise

/-! ## 2. Canonical records -/

/-- A file is at the place, or can be made there. -/
def Place.Usable (place : Place) : Prop := ∃ bytes, place.base? = some bytes

theorem Place.Extends.usable {place after : Place} {r : Record} (h : place.Extends [r] after) :
    after.Usable := by
  cases h with
  | lines _ _ => exact ⟨_, rfl⟩

namespace Record

/-- The prompt has no blanks at its ends and the formula can be read as it stands. -/
structure Canonical (r : Record) : Prop where
  prompt : trimBlanks r.prompt = r.prompt
  formula : ∃ f, Formula.parse r.formula = .ok f

/-- **A canonical record is saved as it stands**, wherever anything can be saved. -/
theorem Canonical.add {r : Record} (h : r.Canonical) {place : Place} (hplace : place.Usable) :
    ∃ after, place.add r.prompt r.formula = (.ok r, after) ∧ place.Extends [r] after := by
  obtain ⟨f, hf⟩ := h.formula
  have hformula : withoutBlanks r.formula = r.formula := by
    rw [(Formula.parse_eq_ok_iff.mp hf).1]
    exact f.withoutBlanks_toString
  have hcan : place.CanAdd r.formula := ⟨⟨f, by rw [hformula, hf]⟩, hplace⟩
  rcases place.add_cases r.prompt r.formula with ⟨hno, -⟩ | ⟨-, bytes, hbase, hadd⟩
  · exact absurd hcan hno
  · rw [h.prompt, hformula] at hadd
    exact ⟨_, hadd, .lines (List.cons_ne_nil r []) hbase⟩

/-- **What is saved is canonical**, however its parts were typed. -/
theorem canonical_of_add {place after : Place} {prompt text : String} {r : Record}
    (h : place.add prompt text = (.ok r, after)) : r.Canonical ∧ place.Extends [r] after := by
  rcases place.add_cases prompt text with ⟨-, e, hadd⟩ | ⟨⟨hf, -⟩, bytes, hbase, hadd⟩
  · rw [h] at hadd
    cases hadd
  · rw [h] at hadd
    cases hadd
    exact ⟨⟨trimBlanks_idem prompt, hf⟩, .lines (List.cons_ne_nil _ _) hbase⟩

end Record

/-! ## 3. Exercises that were drawn -/

namespace Exercise

/-- Some source of chance leads to the exercise. -/
def Drawn (e : Exercise) : Prop :=
  ∃ (σ : Type) (_ : Source σ) (size : Nat) (s s' : σ),
    1 ≤ size ∧ size ≤ 11 ∧ random size s = (.ok e, s')

namespace Drawn

variable {e : Exercise}

theorem hasShape (h : e.Drawn) : ∃ size ≤ 11, e.formula.HasShape (Variable.all.take size) := by
  obtain ⟨σ, _, size, s, s', hpos, hle, he⟩ := h
  obtain ⟨f, s₁, hshape, hrandom⟩ := exists_random hpos hle s
  obtain rfl := Except.ok.inj (Prod.mk.inj (he.symm.trans hrandom)).1
  exact ⟨size, hle, hshape⟩

theorem prompt_eq (h : e.Drawn) : e.prompt = English.sentence e.meaning e.formula := by
  obtain ⟨σ, _, size, s, s', hpos, hle, he⟩ := h
  obtain ⟨f, s₁, -, hrandom⟩ := exists_random hpos hle s
  obtain rfl := Except.ok.inj (Prod.mk.inj (he.symm.trans hrandom)).1
  rfl

/-- There are at most two levels of nesting for each letter but one, far fewer than can be read. -/
theorem depth_le (h : e.Drawn) : e.formula.depth ≤ maxDepth := by
  obtain ⟨size, hle, hshape⟩ := h.hasShape
  have hdepth := Formula.depth_le hshape.negations
  have hcount := hshape.length
  have hletters := List.length_take_le size Variable.all
  have hmax : maxDepth = 256 := rfl
  omega

theorem canonical_toRecord (h : e.Drawn) : e.toRecord.Canonical where
  prompt := by
    rw [toRecord, h.prompt_eq]
    exact English.trimBlanks_sentence e.meaning e.formula
  formula := ⟨e.formula, Formula.parse_toString h.depth_le⟩

end Drawn

/-! ## 4. Reading back and saving once more -/

/-- **Exercises and records are converted without loss, and saving is idempotent.**  An exercise that
was drawn or read comes back from its record with its prompt and its formula, and judges every answer
as before; a record that describes an exercise comes back unchanged.  A record that was saved
anywhere is saved as it stands, in the identical line, wherever it is added once more; and the record
that a drawn exercise is saved as is its own. -/
theorem records_lose_nothing :
    (∀ e : Exercise, (e.Drawn ∨ ∃ r, ofRecord r = .ok e) →
      ∃ e', ofRecord e.toRecord = .ok e' ∧ e'.prompt = e.prompt ∧ e'.formula = e.formula ∧
        ∀ answer, e'.judge answer = e.judge answer) ∧
    (∀ (r : Record) (e : Exercise), ofRecord r = .ok e → e.toRecord = r) ∧
    (∀ (place after : Place) (prompt text : String) (r : Record),
      place.add prompt text = (.ok r, after) →
        place.Extends [r] after ∧ after.Usable ∧
        ∀ other : Place, other.Usable →
          ∃ later, other.add r.prompt r.formula = (.ok r, later) ∧ other.Extends [r] later) ∧
    ∀ e : Exercise, e.Drawn → ∀ place : Place, place.Usable →
      ∃ after, place.add e.prompt (toString e.formula) = (.ok e.toRecord, after) ∧
        place.Extends [e.toRecord] after := by
  refine ⟨?_, ?_, ?_, ?_⟩
  · intro e he
    have hdepth : e.formula.depth ≤ maxDepth := by
      rcases he with he | ⟨r, hr⟩
      · exact he.depth_le
      · exact (ofRecord_eq_ok_iff.mp hr).2.shallow
    exact ⟨e.meaningless, ofRecord_toRecord hdepth, rfl, rfl, e.judge_meaningless⟩
  · intro r e h
    exact (ofRecord_eq_ok_iff.mp h).1
  · intro place after prompt text r h
    obtain ⟨hcanonical, hextends⟩ := Record.canonical_of_add h
    exact ⟨hextends, hextends.usable, fun other hother => hcanonical.add hother⟩
  · intro e he place hplace
    exact he.canonical_toRecord.add hplace

/-- An exercise drawn with the whole alphabet is saved where nothing was and read back; another one,
typed with blanks, is saved there and then once more behind its own line. -/
theorem saved_twice_in_one_line :
    (∃ (e e' : Exercise) (after : Place), e.Drawn ∧
      Place.absent.add e.prompt (toString e.formula) = (.ok e.toRecord, after) ∧
      ofRecord e.toRecord = .ok e' ∧ e'.formula = e.formula) ∧
    ∃ (e : Exercise) (after later : Place),
      ofRecord ⟨"Tea is hot", "(p&q)"⟩ = .ok e ∧ e.toRecord = ⟨"Tea is hot", "(p&q)"⟩ ∧
      Place.absent.add "  Tea is hot\n" "( p & q )" = (.ok ⟨"Tea is hot", "(p&q)"⟩, after) ∧
      after.add "Tea is hot" "(p&q)" = (.ok ⟨"Tea is hot", "(p&q)"⟩, later) ∧
      after.Extends [⟨"Tea is hot", "(p&q)"⟩] later := by
  obtain ⟨hback, hsame, hagain, hown⟩ := records_lose_nothing
  constructor
  · obtain ⟨f, s₁, -, hrandom⟩ :=
      exists_random (by decide : 1 ≤ 11) (by decide) (WordList.ofList [0])
    obtain ⟨e, he⟩ : ∃ e : Exercise, e.Drawn :=
      ⟨_, WordList, _, 11, _, _, by decide, by decide, hrandom⟩
    obtain ⟨e', he', -, hformula, -⟩ := hback e (.inl he)
    obtain ⟨after, hadd, -⟩ := hown e he .absent ⟨_, rfl⟩
    exact ⟨e, e', after, he, hadd, he', hformula⟩
  · have hparse : Formula.parse "(p&q)" =
        .ok (.binary .conjunction (.atom (.variable .p)) (.atom (.variable .q))) :=
      Formula.parse_eq_ok_iff.mpr ⟨by decide, by decide⟩
    obtain ⟨e, he⟩ : ∃ e, ofRecord ⟨"Tea is hot", "(p&q)"⟩ = .ok e := by
      rw [ofRecord, hparse]
      exact ⟨_, rfl⟩
    have hprompt : trimBlanks "  Tea is hot\n" = "Tea is hot" := by decide
    have hformula : withoutBlanks "( p & q )" = "(p&q)" := by decide
    rcases Place.absent.add_cases "  Tea is hot\n" "( p & q )" with ⟨hno, -⟩ | ⟨-, _, -, hadd⟩
    · exact absurd ⟨⟨_, hformula ▸ hparse⟩, _, rfl⟩ hno
    · rw [hprompt, hformula] at hadd
      obtain ⟨-, husable, hother⟩ := hagain _ _ _ _ _ hadd
      obtain ⟨later, hlater, hextends⟩ := hother _ husable
      exact ⟨e, _, later, he, hsame _ e he, hadd, hlater, hextends⟩

end Exercise
end Sentential
