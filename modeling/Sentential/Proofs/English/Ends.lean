/-
# Where a sentence begins and ends

A sentence begins with a quote, a letter, a word or a parenthesis, and it ends with one of these,
whatever its meaning is.  So no blank stands at its ends, and it can be saved as it is.

* `English.Solid.append`: texts that are put together begin like the first and end like the last;
* `English.solid_phrase`: a phrase;
* `English.trimBlanks_sentence`: a sentence.
-/
import Sentential.Proofs.English.Phrase
import Sentential.Proofs.Formula.Blank

namespace Sentential
namespace English

variable {m : Meaning} {s u : List Char}

/-- The text begins and ends with a character that is not blank. -/
structure Solid (s : List Char) : Prop where
  head : ∃ c ∈ s.head?, isBlank c = false
  last : ∃ c ∈ s.getLast?, isBlank c = false

namespace Solid

theorem trimmed (h : Solid s) : Trimmed s where
  head c hc := by
    obtain ⟨d, hd, hblank⟩ := h.head
    rwa [Option.mem_unique hc hd]
  last c hc := by
    obtain ⟨d, hd, hblank⟩ := h.last
    rwa [Option.mem_unique hc hd]

theorem singleton {c : Char} (h : isBlank c = false) : Solid [c] :=
  ⟨⟨c, rfl, h⟩, ⟨c, rfl, h⟩⟩

/-- What stands between the first text and the last one does not matter. -/
theorem append (hs : Solid s) (t : List Char) (hu : Solid u) : Solid (s ++ (t ++ u)) := by
  obtain ⟨c, hc, hcblank⟩ := hs.head
  obtain ⟨d, hd, hdblank⟩ := hu.last
  refine ⟨⟨c, ?_, hcblank⟩, ⟨d, ?_, hdblank⟩⟩
  · rw [List.head?_append, Option.mem_def.mp hc]
    rfl
  · rw [List.getLast?_append, List.getLast?_append, Option.mem_def.mp hd]
    rfl

end Solid

/-! ## 1. Atoms -/

theorem solid_word (b : Bool) : Solid (word b) := by
  cases b with
  | true => exact ⟨⟨'t', by decide, by decide⟩, ⟨'e', by decide, by decide⟩⟩
  | false => exact ⟨⟨'f', by decide, by decide⟩, ⟨'e', by decide, by decide⟩⟩

theorem solid_atomPhrase (m : Meaning) (a : Atom) : Solid (atomPhrase m a) := by
  have hquote : Solid ['\x27'] := .singleton (by decide)
  rcases atomPhrase_cases m a with ⟨letter, p, -, -, ha⟩ | ⟨letter, -, ha⟩ | ⟨b, -, ha⟩
  · rw [ha]
    exact hquote.append p.text.toList hquote
  · rw [ha]
    exact .singleton letter.isBlank_name
  · rw [ha]
    exact solid_word b

/-! ## 2. Phrases -/

theorem Solid.inner {f : Formula} (h : Solid (phrase m f)) : Solid (inner m f) := by
  by_cases hf : Compound f
  · rw [inner_of_compound hf]
    exact (Solid.singleton (c := '(') (by decide)).append _ (.singleton (by decide))
  · obtain ⟨a, rfl⟩ : ∃ a, f = .atom a := by simpa [Compound] using hf
    exact h

/-- A lead is a word and a blank, or nothing. -/
theorem solid_lead_append (c : Connective) (h : Solid s) : Solid (lead c ++ s) := by
  rcases lead_cases c with hc | hc
  · rw [hc]
    exact h
  · have hword : Solid ['I', 'f'] := ⟨⟨'I', by decide, by decide⟩, ⟨'f', by decide, by decide⟩⟩
    rw [hc]
    exact hword.append [' '] h

/-- **A phrase begins and ends with a character that is not blank.** -/
theorem solid_phrase (m : Meaning) (f : Formula) : Solid (phrase m f) := by
  induction f with
  | atom a => exact solid_atomPhrase m a
  | negation f ih =>
    have hjoin : join .negation = " is ".toList ++ word false := by decide
    rw [phrase_negation, hjoin]
    exact solid_lead_append .negation (ih.inner.append _ (solid_word false))
  | binary op l r ihl ihr =>
    rw [phrase_binary]
    exact solid_lead_append (.binary op) (ihl.inner.append _ ihr.inner)

theorem trimBlanks_sentence (m : Meaning) (f : Formula) :
    trimBlanks (sentence m f) = sentence m f := by
  rw [trimBlanks, sentence, String.toList_ofList, (solid_phrase m f).trimmed.trimmed_eq]

end English
end Sentential
