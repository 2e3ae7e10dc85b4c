/-
# Random exercises

A random exercise is made of three parts: a formula of the size asked for, a meaning with a noun and
an adjective for each of its variables, and the sentence that the formula is read as under this
meaning.  There are enough words for all variables, and none is drawn twice.  The letters of the
formula are different, so they are its variables, in the order in which they stand in its leaves and
in which their propositions stand in the sentence.

* `Exercise.explains_drawMeaning`: what a drawn meaning is;
* `Exercise.exists_random`: a random exercise and its parts;
* `Exercise.random_explains_every_variable`: what its sentence says about each variable.
-/
import Sentential.Proofs.English.Meaning
import Sentential.Proofs.English.Quotes
import Sentential.Proofs.Formula.Random

namespace Sentential

/-! ## 1. Meanings that explain variables -/

namespace Meaning

/-- The propositions, in the order of their variables. -/
def propositions (m : Meaning) : List Proposition := m.entries.map Prod.snd

/-- Each variable of the set, and no other, has a proposition, in the order of the set; the words of
the propositions are taken from the vocabulary, and none is used twice. -/
structure Explains (m : Meaning) (V : VariableSet) : Prop where
  keys_eq : m.keys = V.toList
  nodup_nouns : (m.propositions.map Proposition.noun).Nodup
  nodup_adjectives : (m.propositions.map Proposition.adjective).Nodup
  noun_mem : ∀ p ∈ m.propositions, p.noun ∈ English.nouns
  adjective_mem : ∀ p ∈ m.propositions, p.adjective ∈ English.adjectives

namespace Explains

variable {m : Meaning} {V : VariableSet}

theorem exists_get? (h : m.Explains V) {a : Variable} (ha : a ∈ V) :
    ∃ p ∈ m.propositions, m.get? a = some p := by
  have hkey : a ∈ m.keys := by
    rw [h.keys_eq]
    exact ha
  obtain ⟨⟨_, p⟩, he, rfl⟩ := List.mem_map.mp hkey
  exact ⟨p, List.mem_map_of_mem he, VariableMap.get?_of_mem_entries he⟩

/-- Different nouns make different propositions. -/
theorem nodup_texts (h : m.Explains V) : (m.propositions.map Proposition.text).Nodup := by
  have hnouns := List.pairwise_map.mp h.nodup_nouns
  refine List.pairwise_map.mpr (hnouns.imp_of_mem ?_)
  intro p q hp hq hne htext
  exact hne (English.noun_eq_of_text_eq (English.noun_unbroken _ (h.noun_mem p hp))
    (English.noun_unbroken _ (h.noun_mem q hq)) htext)

/-- The variables are displayed as their propositions, one after another. -/
theorem displayed_eq (h : m.Explains V) :
    English.displayed m V.toList = m.propositions.map fun p => p.text.toList := by
  rw [← h.keys_eq, English.displayed, ← List.map_filterMap, VariableMap.filterMap_get?_keys]
  rfl

end Explains
end Meaning

/-! ## 2. Drawn meanings -/

theorem Proposition.map_noun_zipWith {nouns adjectives : List String}
    (h : nouns.length ≤ adjectives.length) :
    (List.zipWith Proposition.mk nouns adjectives).map Proposition.noun = nouns := by
  rw [List.map_zipWith, ← List.map_uncurry_zip_eq_zipWith]
  exact List.map_fst_zip h

theorem Proposition.map_adjective_zipWith {nouns adjectives : List String}
    (h : adjectives.length ≤ nouns.length) :
    (List.zipWith Proposition.mk nouns adjectives).map Proposition.adjective = adjectives := by
  rw [List.map_zipWith, ← List.map_uncurry_zip_eq_zipWith]
  exact List.map_snd_zip h

/-- Two lists of different words, one of each for each variable, explain the variables, however they
were drawn. -/
theorem Meaning.explains_zip {V : VariableSet} {nouns adjectives : List String}
    (hnouns : nouns.length = V.size) (hadjectives : adjectives.length = V.size)
    (hnodup : nouns.Nodup) (hnodup' : adjectives.Nodup) (hmem : ∀ noun ∈ nouns, noun ∈ English.nouns)
    (hmem' : ∀ adjective ∈ adjectives, adjective ∈ English.adjectives) :
    Meaning.Explains (VariableMap.zip V (List.zipWith Proposition.mk nouns adjectives)) V := by
  have hlength : (List.zipWith Proposition.mk nouns adjectives).length = V.size := by
    rw [List.length_zipWith, hnouns, hadjectives, Nat.min_self]
  have hpropositions :
      Meaning.propositions (VariableMap.zip V (List.zipWith Proposition.mk nouns adjectives)) =
        List.zipWith Proposition.mk nouns adjectives :=
    List.map_snd_zip (Nat.le_of_eq hlength)
  have hlengths : nouns.length = adjectives.length := hnouns.trans hadjectives.symm
  have hnoun := Proposition.map_noun_zipWith (Nat.le_of_eq hlengths)
  have hadjective := Proposition.map_adjective_zipWith (Nat.le_of_eq hlengths.symm)
  refine ⟨VariableMap.keys_zip hlength, ?_, ?_, ?_, ?_⟩
  · rw [hpropositions, hnoun]
    exact hnodup
  · rw [hpropositions, hadjective]
    exact hnodup'
  · rw [← hnoun, List.forall_mem_map] at hmem
    rw [hpropositions]
    exact hmem
  · rw [← hadjective, List.forall_mem_map] at hmem'
    rw [hpropositions]
    exact hmem'

namespace Exercise

variable {σ : Type} [Source σ]

/-- There are more words of each kind than variables. -/
theorem enough_words (V : VariableSet) :
    V.size ≤ English.nouns.length ∧ V.size ≤ English.adjectives.length := by
  have hsize := V.size_le
  have hnouns : English.nouns.length = 13 := rfl
  have hadjectives : English.adjectives.length = 17 := rfl
  omega

/-- **A drawn meaning explains the variables it is drawn for.** -/
theorem explains_drawMeaning (V : VariableSet) (s : σ) : (drawMeaning V s).1.Explains V := by
  obtain ⟨hnouns, hadjectives⟩ := enough_words V
  exact Meaning.explains_zip (Sample.length_ofList hnouns s) (Sample.length_ofList hadjectives _)
    (Sample.nodup_ofList English.nodup_nouns _ s)
    (Sample.nodup_ofList English.nodup_adjectives _ _)
    (fun _ => Sample.mem_of_mem_ofList) (fun _ => Sample.mem_of_mem_ofList)

/-! ## 3. Random exercises -/

/-- **A random exercise has a formula of the shape asked for**, and its sentence is that of the
formula under the meaning that is drawn behind it. -/
theorem exists_random {size : Nat} (hpos : 1 ≤ size) (hle : size ≤ 11) (s : σ) :
    ∃ (f : Formula) (s₁ : σ), f.HasShape (Variable.all.take size) ∧
      random size s = (.ok {
        formula := f
        prompt := English.sentence (drawMeaning f.variableSet s₁).1 f
        meaning := (drawMeaning f.variableSet s₁).1 }, (drawMeaning f.variableSet s₁).2) := by
  obtain ⟨f, s₁, hf, hshape⟩ := Formula.random_hasShape hpos hle s
  refine ⟨f, s₁, hshape, ?_⟩
  rw [random, hf]

/-- **The sentence of a random exercise explains every variable.**  Whatever the source of chance
says, there is an exercise of every size from 1 to 11.  Its meaning explains the variables of the
formula, in the order of its leaves, so each of them is read as its proposition and none as its
letter; and what the sentence quotes is the propositions in this order, each of them once.  The words
are drawn from lists that are long enough, so as many different ones are drawn as there are
variables. -/
theorem random_explains_every_variable :
    (∀ (size : Nat) (s : σ), 1 ≤ size → size ≤ 11 →
      ∃ e s', random size s = (.ok e, s') ∧
        e.formula.leaves = e.formula.variableSet.toList.map .variable ∧
        e.meaning.Explains e.formula.variableSet ∧
        (∀ a ∈ e.formula.variableSet, ∃ p ∈ e.meaning.propositions, e.meaning.get? a = some p ∧
          English.atomPhrase e.meaning (.variable a) = '\x27' :: (p.text.toList ++ ['\x27'])) ∧
        English.quoted e.prompt.toList = (e.meaning.propositions.map fun p => p.text.toList) ∧
        (e.meaning.propositions.map Proposition.text).Nodup) ∧
    (∀ V : VariableSet, V.size ≤ English.nouns.length ∧ V.size ≤ English.adjectives.length) ∧
    ∀ (length amount : Nat) (s : σ), amount ≤ length →
      (Sample.indices length amount s).1.length = amount ∧
        Sample.Distinct length (Sample.indices length amount s).1 := by
  refine ⟨?_, enough_words, ?_⟩
  · intro size s hpos hle
    obtain ⟨f, s₁, hshape, hrandom⟩ := exists_random hpos hle s
    have hletters : f.variableSet.toList = Variable.all.take size := by
      have hnodup := Variable.nodup_all.sublist (List.take_sublist size Variable.all)
      rw [← hshape.occurrences] at hnodup ⊢
      exact Formula.toList_variableSet_of_nodup hnodup
    have hexplains := explains_drawMeaning f.variableSet s₁
    have hquotes := English.quotes_phrase (legible_drawMeaning f.variableSet s₁) f
    refine ⟨_, _, hrandom, ?_, hexplains, ?_, ?_, hexplains.nodup_texts⟩
    · rw [hletters]
      exact hshape.leaves
    · intro a ha
      obtain ⟨p, hp, hget⟩ := hexplains.exists_get? ha
      exact ⟨p, hp, hget, English.atomPhrase_of_get? hget⟩
    · rw [hshape.occurrences, ← hletters, hexplains.displayed_eq] at hquotes
      rw [English.sentence, String.toList_ofList]
      exact hquotes.quoted_eq
  · intro length amount s h
    exact ⟨Sample.length_indices length amount s, Sample.distinct_indices h s⟩

/-- Every letter of the alphabet, drawn from a list that has no word but zero, so that the same words
would be drawn again and again if none were put aside. -/
theorem random_explains_whole_alphabet :
    (1 ≤ 11 ∧ 11 ≤ 11 ∧ 11 ≤ English.nouns.length) ∧
      (∃ e s', random 11 (WordList.ofList [0]) = (.ok e, s') ∧
        e.meaning.Explains e.formula.variableSet ∧
        English.quoted e.prompt.toList = e.meaning.propositions.map fun p => p.text.toList) ∧
      Sample.Distinct 13 (Sample.indices 13 11 (WordList.ofList [0])).1 := by
  have hbounds : 1 ≤ 11 ∧ 11 ≤ 11 ∧ 11 ≤ English.nouns.length := by decide
  obtain ⟨hrandom, -, hsample⟩ := random_explains_every_variable (σ := WordList)
  obtain ⟨e, s', he, -, hexplains, -, hquoted, -⟩ :=
    hrandom 11 (WordList.ofList [0]) hbounds.1 hbounds.2.1
  exact ⟨hbounds, ⟨e, s', he, hexplains, hquoted⟩, (hsample 13 11 _ (by decide)).2⟩

end Exercise
end Sentential
