/-
# An English sentence determines its formula

It does under every meaning that is legible: one whose propositions have no quote in them and are
different for different variables.  The meanings of random exercises are such.  No word has a quote,
no noun is drawn twice, and a noun ends at the first blank of its proposition.

* `Exercise.legible_drawMeaning`: the propositions of a random exercise can be told apart;
* `English.sentence_determines_formula`: different formulas are different sentences.
-/
import Sentential.Exercise
import Sentential.Proofs.English.Phrase
import Sentential.Proofs.Random.Sample
import Sentential.Proofs.Variable.Zip

namespace Sentential

/-! ## 1. Words -/

namespace English

theorem noun_unquoted : ∀ noun ∈ nouns, '\x27' ∉ noun.toList := by
  decide +kernel

theorem adjective_unquoted : ∀ adjective ∈ adjectives, '\x27' ∉ adjective.toList := by
  decide +kernel

theorem noun_unbroken : ∀ noun ∈ nouns, ' ' ∉ noun.toList := by
  decide +kernel

/-- The noun of a proposition is what stands in front of its first blank. -/
theorem noun_eq_of_text_eq {s t : Proposition} (hs : ' ' ∉ s.noun.toList)
    (ht : ' ' ∉ t.noun.toList) (h : s.text = t.text) : s.noun = t.noun := by
  have hverb : " is ".toList = ' ' :: ['i', 's', ' '] := by decide
  have htext : s.noun.toList ++ ' ' :: (['i', 's', ' '] ++ s.adjective.toList) =
      t.noun.toList ++ ' ' :: (['i', 's', ' '] ++ t.adjective.toList) := by
    have hlist := congrArg String.toList h
    simpa only [Proposition.text, String.toList_append, hverb, List.append_assoc,
      List.cons_append] using hlist
  exact String.toList_inj.mp (append_cons_inj_of_notMem hs ht htext).1

end English

/-! ## 2. The meanings of exercises -/

namespace Exercise

variable {σ : Type} [Source σ]

/-- What a drawn meaning gives is a noun that stands at the place of the variable among the drawn
ones, and an adjective. -/
theorem exists_of_get?_drawMeaning {V : VariableSet} {s : σ} {a : Variable} {p : Proposition}
    (h : (drawMeaning V s).1.get? a = some p) :
    ∃ i : Nat, V.toList[i]? = some a ∧
      (Sample.ofList English.nouns V.size s).1[i]? = some p.noun ∧
      p.noun ∈ English.nouns ∧ p.adjective ∈ English.adjectives := by
  obtain ⟨i, ha, hp⟩ := VariableMap.exists_getElem?_of_get?_zip h
  obtain ⟨noun, adjective, hnoun, hadjective, rfl⟩ := List.getElem?_zipWith_eq_some.mp hp
  exact ⟨i, ha, hnoun, Sample.mem_of_mem_ofList (List.mem_of_getElem? hnoun),
    Sample.mem_of_mem_ofList (List.mem_of_getElem? hadjective)⟩

/-- **Drawn propositions can be told apart.** -/
theorem legible_drawMeaning (V : VariableSet) (s : σ) : (drawMeaning V s).1.Legible where
  unquoted h := by
    obtain ⟨-, -, -, hnoun, hadjective⟩ := exists_of_get?_drawMeaning h
    exact ⟨English.noun_unquoted _ hnoun, English.adjective_unquoted _ hadjective⟩
  distinct {a b p q} ha hb htext := by
    obtain ⟨i, hi, hp, hpnoun, -⟩ := exists_of_get?_drawMeaning ha
    obtain ⟨k, hk, hq, hqnoun, -⟩ := exists_of_get?_drawMeaning hb
    have hnoun := English.noun_eq_of_text_eq (English.noun_unbroken _ hpnoun)
      (English.noun_unbroken _ hqnoun) htext
    -- No noun is drawn twice, so the same noun stands at one place only.
    have hlt := (List.getElem?_eq_some_iff.mp hp).1
    obtain rfl : i = k := (List.getElem?_inj hlt (Sample.nodup_ofList English.nodup_nouns _ s)).mp
      (by rw [hp, hq, hnoun])
    exact Option.some.inj (hi.symm.trans hk)

end Exercise

namespace English

theorem legible_empty : (∅ : Meaning).Legible where
  unquoted h := nomatch h
  distinct h := nomatch h

/-- **A sentence determines its formula.**  Under every legible meaning, whether it has a
proposition for every variable or not, different formulas are different sentences.  The meaning of
a random exercise is legible, and so is the one without propositions. -/
theorem sentence_determines_formula :
    (∀ m : Meaning, m.Legible → ∀ f g : Formula, sentence m f = sentence m g → f = g) ∧
    (∀ {σ : Type} [Source σ] (V : VariableSet) (s : σ),
      (Exercise.drawMeaning V s).1.Legible) ∧
    (∅ : Meaning).Legible :=
  ⟨fun _ hm _ _ h => sentence_injective hm h, fun V s => Exercise.legible_drawMeaning V s,
    legible_empty⟩

/-- The meaning may leave variables out: `t` is read as its letter here, and `true` would begin
with it. -/
theorem determined_around_bare_letter :
    Meaning.Legible (.insert ∅ .p ⟨"Tea", "Hot"⟩) ∧
      ∀ g : Formula, sentence (.insert ∅ .p ⟨"Tea", "Hot"⟩) g =
          "If t, then ('Tea is Hot' is false)" →
        g = .binary .conditional (.atom (.variable .t))
          (.negation (.atom (.variable .p))) := by
  have hget {a : Variable} {s : Proposition}
      (h : (VariableMap.insert ∅ .p ⟨"Tea", "Hot"⟩).get? a = some s) :
      a = .p ∧ s = ⟨"Tea", "Hot"⟩ := by
    rw [VariableMap.get?_insert] at h
    split at h
    · next ha => exact ⟨ha, (Option.some.inj h).symm⟩
    · cases h
  have hlegible : Meaning.Legible (.insert ∅ .p ⟨"Tea", "Hot"⟩) := by
    constructor
    · intro a s h
      obtain ⟨-, rfl⟩ := hget h
      decide
    · intro a b s t ha hb _
      exact (hget ha).1.trans (hget hb).1.symm
  refine ⟨hlegible, fun g hg => sentence_determines_formula.1 _ hlegible _ _ (hg.trans ?_)⟩
  decide +kernel

end English
end Sentential
