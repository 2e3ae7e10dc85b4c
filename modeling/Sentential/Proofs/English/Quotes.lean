/-
# What a sentence quotes

A quote opens a part of a text, and the next one closes it.  In the phrase of a formula only
propositions stand in quotes, and every quote is closed again, so the quoted parts of a phrase are
those of its operands one after another: the propositions of its variables from left to right, as
often as each of them occurs.  A variable without a proposition is read as its bare letter and quotes
nothing.

* `English.Quotes.append`: quoted parts of texts that are put together;
* `English.quotes_phrase`: the quoted parts of a phrase.
-/
import Sentential.Proofs.English.Phrase
import Sentential.Proofs.Variable.Collection

namespace Sentential
namespace English

/-! ## 1. Quoted parts -/

/-- The parts of a text that stand between quotes, from left to right.  If a part is open at the
beginning, `opened?` is what has been passed of it. -/
def quotedFrom : Option (List Char) → List Char → List (List Char)
  | _, [] => []
  | none, c :: s => quotedFrom (if c = '\x27' then some [] else none) s
  | some part, c :: s =>
    if c = '\x27' then part :: quotedFrom none s else quotedFrom (some (part ++ [c])) s

/-- The parts of a text that stand between quotes, from left to right. -/
def quoted (s : List Char) : List (List Char) := quotedFrom none s

variable {s t part : List Char}

theorem quoted_append_of_notMem (h : '\x27' ∉ s) (t : List Char) : quoted (s ++ t) = quoted t := by
  induction s with
  | nil => rfl
  | cons c s ih =>
    rw [List.mem_cons, not_or] at h
    rw [List.cons_append, quoted, quotedFrom, if_neg (Ne.symm h.1), ← quoted, ih h.2]

theorem quotedFrom_some_append (h : '\x27' ∉ s) (part t : List Char) :
    quotedFrom (some part) (s ++ '\x27' :: t) = (part ++ s) :: quoted t := by
  induction s generalizing part with
  | nil => rw [List.nil_append, quotedFrom, if_pos rfl, List.append_nil, quoted]
  | cons c s ih =>
    rw [List.mem_cons, not_or] at h
    rw [List.cons_append, quotedFrom, if_neg (Ne.symm h.1), ih h.2, List.append_assoc,
      List.singleton_append]

/-- Every quote in the text is closed in it, and what stands between them are the parts. -/
def Quotes (s : List Char) (parts : List (List Char)) : Prop :=
  ∀ t, quoted (s ++ t) = parts ++ quoted t

namespace Quotes

variable {parts more : List (List Char)}

theorem quoted_eq (h : Quotes s parts) : quoted s = parts := by
  have hs := h []
  have hnil : quoted [] = [] := rfl
  rwa [List.append_nil, hnil, List.append_nil] at hs

theorem of_notMem (h : '\x27' ∉ s) : Quotes s [] := quoted_append_of_notMem h

/-- A text in quotes is a part. -/
theorem quote (h : '\x27' ∉ s) : Quotes ('\x27' :: (s ++ ['\x27'])) [s] := by
  intro t
  rw [List.cons_append, List.append_assoc, quoted, quotedFrom, if_pos rfl, List.singleton_append,
    quotedFrom_some_append h, List.nil_append, List.singleton_append]

/-- **Quoted parts come one after another.** -/
theorem append (hs : Quotes s parts) (ht : Quotes t more) : Quotes (s ++ t) (parts ++ more) := by
  intro u
  rw [List.append_assoc, hs, ht, List.append_assoc]

end Quotes

/-! ## 2. The quoted parts of a phrase -/

variable {m : Meaning}

/-- The propositions of some variables, as they are displayed. -/
def displayed (m : Meaning) (as : List Variable) : List (List Char) :=
  as.filterMap fun a => (m.get? a).map fun p => p.text.toList

theorem quote_notMem_lead (c : Connective) : '\x27' ∉ lead c := by
  have hall : ∀ c ∈ Connective.all, '\x27' ∉ lead c := by decide +kernel
  exact hall c c.mem_all

theorem quote_notMem_join (c : Connective) : '\x27' ∉ join c := by
  have hall : ∀ c ∈ Connective.all, '\x27' ∉ join c := by decide +kernel
  exact hall c c.mem_all

theorem atomPhrase_of_get? {letter : Variable} {p : Proposition} (h : m.get? letter = some p) :
    atomPhrase m (.variable letter) = '\x27' :: (p.text.toList ++ ['\x27']) := by
  simp only [atomPhrase, h, List.cons_append]

theorem quotes_atomPhrase (hm : m.Legible) (a : Atom) :
    Quotes (atomPhrase m a) (displayed m (Formula.atom a).occurrences) := by
  rcases a with letter | b
  · rw [Formula.occurrences_variable]
    cases hp : m.get? letter with
    | some p =>
      have hparts : displayed m [letter] = [p.text.toList] := by simp [displayed, hp]
      rw [atomPhrase_of_get? hp, hparts]
      exact .quote (quote_notMem_text hm hp)
    | none =>
      have hphrase : atomPhrase m (.variable letter) = [letter.name] := by
        simp only [atomPhrase, hp]
      have hparts : displayed m [letter] = [] := by simp [displayed, hp]
      rw [hphrase, hparts]
      exact .of_notMem fun h => quote_ne_name letter (List.mem_singleton.mp h)
  · have hphrase : atomPhrase m (.constant b) = word b := by cases b <;> rfl
    have hword : ∀ b, '\x27' ∉ word b := by decide
    rw [hphrase]
    exact .of_notMem (hword b)

/-- The parentheses around a phrase quote nothing. -/
theorem Quotes.inner {f : Formula} {parts : List (List Char)} (h : Quotes (phrase m f) parts) :
    Quotes (inner m f) parts := by
  by_cases hf : Compound f
  · have hopening : Quotes ['('] [] := .of_notMem (by decide)
    have hclosing : Quotes [')'] [] := .of_notMem (by decide)
    rw [inner_of_compound hf]
    have hall := hopening.append (h.append hclosing)
    rwa [List.nil_append, List.append_nil] at hall
  · obtain ⟨a, rfl⟩ : ∃ a, f = .atom a := by simpa [Compound] using hf
    exact h

/-- **A phrase quotes the propositions of its variables**, each where the variable occurs. -/
theorem quotes_phrase (hm : m.Legible) (f : Formula) :
    Quotes (phrase m f) (displayed m f.occurrences) := by
  have hlead (c : Connective) : Quotes (lead c) [] := .of_notMem (quote_notMem_lead c)
  have hjoin (c : Connective) : Quotes (join c) [] := .of_notMem (quote_notMem_join c)
  induction f with
  | atom a => exact quotes_atomPhrase hm a
  | negation f ih =>
    have hall := (hlead .negation).append (ih.inner.append (hjoin .negation))
    rw [phrase_negation]
    rwa [List.nil_append, List.append_nil] at hall
  | binary op l r ihl ihr =>
    have hall := (hlead (.binary op)).append
      (ihl.inner.append ((hjoin (.binary op)).append ihr.inner))
    rw [phrase_binary, Formula.occurrences_binary, displayed, List.filterMap_append]
    rwa [List.nil_append, List.nil_append] at hall

end English
end Sentential
