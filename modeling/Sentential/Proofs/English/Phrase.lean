/-
# Phrases are uniquely readable

A phrase inside another one ends where its text says: behind the second quote of a proposition,
behind a letter or a word, or behind the parenthesis that closes it.  What stands between two
phrases can be told apart like the tokens of a formula.  So a phrase determines its formula even
where the parentheses around it are left out, as long as a parenthesis or nothing at all follows.

* `Meaning.Legible`: the meanings under which propositions can be told apart;
* `English.join_append_inj`: so can the words that join phrases;
* `English.readable`: a phrase inside another one, and what follows it;
* `English.phrase_append_inj`: a phrase without parentheses, and what follows it;
* `English.sentence_injective`: a whole sentence.
-/
import Mathlib.Data.List.Basic
import Sentential.English
import Sentential.Proofs.Formula.Readability

namespace Sentential

/-- No proposition has a quote in it, and different variables have different ones. -/
structure Meaning.Legible (m : Meaning) : Prop where
  unquoted {a : Variable} {s : Proposition} (h : m.get? a = some s) :
    '\x27' ∉ s.noun.toList ∧ '\x27' ∉ s.adjective.toList
  distinct {a b : Variable} {s t : Proposition} (ha : m.get? a = some s)
    (hb : m.get? b = some t) (h : s.text = t.text) : a = b

/-- The first place of a letter determines what stands in front of it and behind it. -/
theorem append_cons_inj_of_notMem {c : Char} {s s' t t' : List Char} (hs : c ∉ s) (hs' : c ∉ s')
    (h : s ++ c :: t = s' ++ c :: t') : s = s' ∧ t = t' := by
  induction s generalizing s' with
  | nil =>
    cases s' with
    | nil => exact ⟨rfl, (List.cons.inj h).2⟩
    | cons x s' => exact absurd ((List.cons.inj h).1 ▸ List.mem_cons_self) hs'
  | cons x s ih =>
    cases s' with
    | nil => exact absurd ((List.cons.inj h).1 ▸ List.mem_cons_self) hs
    | cons y s' =>
      obtain ⟨rfl, hrest⟩ := List.cons.inj h
      obtain ⟨rfl, rfl⟩ := ih (fun hc => hs (List.mem_cons_of_mem x hc))
        (fun hc => hs' (List.mem_cons_of_mem x hc)) hrest
      exact ⟨rfl, rfl⟩

namespace English

variable {m : Meaning} {s t : List Char}

/-! ## 1. Words between phrases -/

/-- What stands in front of the first phrase of a compound one. -/
def lead : Connective → List Char
  | .binary .conditional => "If ".toList
  | _ => []

/-- What stands behind the first phrase of a compound one, up to the second one if there is one. -/
def join : Connective → List Char
  | .negation => " is false".toList
  | .binary .conjunction => " and ".toList
  | .binary .disjunction => " or ".toList
  | .binary .conditional => ", then ".toList
  | .binary .biconditional => " if and only if ".toList

/-- **No join is the beginning of another one.**  So a text that begins with a join determines
it. -/
theorem join_append_inj {b c : Connective} (h : join b ++ s = join c ++ t) : b = c ∧ s = t := by
  have hfree : ∀ b ∈ Connective.all, ∀ c ∈ Connective.all, join b <+: join c → b = c := by
    decide +kernel
  have hbc : b = c := by
    rcases List.prefix_or_prefix_of_prefix ⟨s, rfl⟩ ⟨t, h.symm⟩ with hpre | hpre
    · exact hfree b b.mem_all c c.mem_all hpre
    · exact (hfree c c.mem_all b b.mem_all hpre).symm
  subst hbc
  exact ⟨rfl, List.append_cancel_left h⟩

/-- A join begins with a blank or a comma. -/
theorem exists_join_eq (c : Connective) : ∃ x rest, join c = x :: rest ∧ (x = ' ' ∨ x = ',') := by
  have hhead : ∀ c ∈ Connective.all, (join c).head? = some ' ' ∨ (join c).head? = some ',' := by
    decide +kernel
  rcases hhead c c.mem_all with h | h
  · obtain ⟨rest, hrest⟩ := List.head?_eq_some_iff.mp h
    exact ⟨' ', rest, hrest, .inl rfl⟩
  · obtain ⟨rest, hrest⟩ := List.head?_eq_some_iff.mp h
    exact ⟨',', rest, hrest, .inr rfl⟩

theorem lead_cases (c : Connective) : lead c = [] ∨ lead c = ['I', 'f', ' '] := by
  have hcases : ∀ c ∈ Connective.all, lead c = [] ∨ lead c = ['I', 'f', ' '] := by decide +kernel
  exact hcases c c.mem_all

/-! ## 2. What may follow a phrase -/

/-- What may stand behind a phrase inside another one: nothing that goes on with a word. -/
def Behind (s : List Char) : Prop := ∀ t, s ≠ 'r' :: t

/-- What may stand behind a phrase without parentheses around it: a closing parenthesis or
nothing. -/
def Ending (s : List Char) : Prop := s = [] ∨ ∃ t, s = ')' :: t

theorem Ending.closing (s : List Char) : Ending (')' :: s) := .inr ⟨s, rfl⟩

theorem Ending.behind (h : Ending s) : Behind s := by
  rintro t rfl
  rcases h with h | ⟨u, h⟩
  · cases h
  · exact absurd (List.cons.inj h).1 (by decide)

theorem behind_join (c : Connective) (s : List Char) : Behind (join c ++ s) := by
  intro t ht
  obtain ⟨x, rest, hc, hx⟩ := exists_join_eq c
  rw [hc] at ht
  obtain ⟨rfl, -⟩ := List.cons.inj ht
  rcases hx with hx | hx <;> cases hx

theorem Ending.ne_join (h : Ending s) (c : Connective) (t : List Char) : s ≠ join c ++ t := by
  obtain ⟨x, rest, hc, hx⟩ := exists_join_eq c
  rintro rfl
  rw [hc] at h
  rcases h with h | ⟨u, h⟩
  · cases h
  · obtain ⟨rfl, -⟩ := List.cons.inj h
    rcases hx with hx | hx <;> cases hx

/-! ## 3. Atoms -/

/-- The word that a constant sentence is read as. -/
def word : Bool → List Char
  | true => "true".toList
  | false => "false".toList

/-- An atom is read as a quoted proposition, a letter or a word. -/
theorem atomPhrase_cases (m : Meaning) (a : Atom) :
    (∃ letter p, a = .variable letter ∧ m.get? letter = some p ∧
      atomPhrase m a = '\x27' :: (p.text.toList ++ ['\x27'])) ∨
    (∃ letter, a = .variable letter ∧ atomPhrase m a = [letter.name]) ∨
    ∃ b, a = .constant b ∧ atomPhrase m a = word b := by
  rcases a with letter | b
  · cases hm : m.get? letter with
    | some p => exact .inl ⟨letter, p, rfl, hm, by simp only [atomPhrase, hm, List.cons_append]⟩
    | none => exact .inr (.inl ⟨letter, rfl, by simp only [atomPhrase, hm]⟩)
  · cases b <;> exact .inr (.inr ⟨_, rfl, rfl⟩)

theorem quote_notMem_text (hm : m.Legible) {letter : Variable} {p : Proposition}
    (h : m.get? letter = some p) : '\x27' ∉ p.text.toList := by
  obtain ⟨hnoun, hadjective⟩ := hm.unquoted h
  simp [Proposition.text, hnoun, hadjective]

/-- The letters that a word begins with. -/
theorem exists_word_eq (b : Bool) :
    (b = true ∧ ∃ w, word b = 't' :: 'r' :: w) ∨ (b = false ∧ ∃ w, word b = 'f' :: w) := by
  have htrue : word true = ['t', 'r', 'u', 'e'] := by decide
  have hfalse : word false = ['f', 'a', 'l', 's', 'e'] := by decide
  cases b with
  | true => exact .inl ⟨rfl, _, htrue⟩
  | false => exact .inr ⟨rfl, _, hfalse⟩

/-- The letters that an atom can begin with. -/
theorem exists_atomPhrase_eq (m : Meaning) (a : Atom) :
    ∃ c w, atomPhrase m a = c :: w ∧ c ≠ 'I' ∧ c ≠ '(' := by
  rcases atomPhrase_cases m a with ⟨letter, p, -, -, ha⟩ | ⟨letter, -, ha⟩ | ⟨b, -, ha⟩
  · exact ⟨_, _, ha, by decide, by decide⟩
  · refine ⟨_, _, ha, ?_⟩
    cases letter <;> decide
  · rcases exists_word_eq b with ⟨-, w, hw⟩ | ⟨-, w, hw⟩
    · exact ⟨_, _, ha.trans hw, by decide, by decide⟩
    · exact ⟨_, _, ha.trans hw, by decide, by decide⟩

theorem quote_ne_name (letter : Variable) : '\x27' ≠ letter.name := by
  cases letter <;> decide

theorem quote_cons_ne_word (b : Bool) : '\x27' :: s ≠ word b ++ t := by
  intro h
  rcases exists_word_eq b with ⟨-, w, hw⟩ | ⟨-, w, hw⟩
  · rw [hw] at h
    exact absurd (List.cons.inj h).1 (by decide)
  · rw [hw] at h
    exact absurd (List.cons.inj h).1 (by decide)

/-- A letter is the beginning of a word, but the word goes on. -/
theorem name_cons_ne_word (hs : Behind s) (letter : Variable) (b : Bool) :
    letter.name :: s ≠ word b ++ t := by
  intro h
  rcases exists_word_eq b with ⟨-, w, hw⟩ | ⟨-, w, hw⟩
  · rw [hw] at h
    exact hs _ (List.cons.inj h).2
  · rw [hw] at h
    have hname : letter.name ≠ 'f' := by cases letter <;> decide
    exact hname (List.cons.inj h).1

theorem word_append_inj {b b' : Bool} (h : word b ++ s = word b' ++ t) : b = b' ∧ s = t := by
  have hb : b = b' := by
    rcases exists_word_eq b with ⟨rfl, w, hw⟩ | ⟨rfl, w, hw⟩ <;>
      rcases exists_word_eq b' with ⟨rfl, w', hw'⟩ | ⟨rfl, w', hw'⟩
    · rfl
    · rw [hw, hw'] at h
      exact absurd (List.cons.inj h).1 (by decide)
    · rw [hw, hw'] at h
      exact absurd (List.cons.inj h).1 (by decide)
    · rfl
  subst hb
  exact ⟨rfl, List.append_cancel_left h⟩

/-- **An atom is determined by the text that begins with it.** -/
theorem atomPhrase_append_inj (hm : m.Legible) {a b : Atom} (hs : Behind s) (ht : Behind t)
    (h : atomPhrase m a ++ s = atomPhrase m b ++ t) : a = b ∧ s = t := by
  rcases atomPhrase_cases m a with ⟨l, p, rfl, hp, ha⟩ | ⟨l, rfl, ha⟩ | ⟨v, rfl, ha⟩ <;>
    rcases atomPhrase_cases m b with ⟨l', q, rfl, hq, hb⟩ | ⟨l', rfl, hb⟩ | ⟨v', rfl, hb⟩ <;>
      rw [ha, hb] at h
  · have htext : p.text.toList ++ '\x27' :: s = q.text.toList ++ '\x27' :: t := by
      simpa using h
    obtain ⟨hpq, hst⟩ := append_cons_inj_of_notMem (quote_notMem_text hm hp)
      (quote_notMem_text hm hq) htext
    exact ⟨congrArg Atom.variable (hm.distinct hp hq (String.toList_inj.mp hpq)), hst⟩
  · exact absurd (List.cons.inj h).1 (quote_ne_name l')
  · exact absurd h (quote_cons_ne_word v')
  · exact absurd (List.cons.inj h).1.symm (quote_ne_name l)
  · obtain ⟨hname, hst⟩ := List.cons.inj h
    exact ⟨Atom.name_injective hname, hst⟩
  · exact absurd h (name_cons_ne_word hs l v')
  · exact absurd h.symm (quote_cons_ne_word v)
  · exact absurd h.symm (name_cons_ne_word ht l' v)
  · obtain ⟨rfl, hst⟩ := word_append_inj h
    exact ⟨rfl, hst⟩

/-! ## 4. Phrases -/

/-- The phrase of a formula inside another one. -/
def inner (m : Meaning) (f : Formula) : List Char := enclosed f (phrase m f)

theorem phrase_negation (m : Meaning) (f : Formula) :
    phrase m (.negation f) = lead .negation ++ (inner m f ++ join .negation) :=
  rfl

theorem phrase_binary (m : Meaning) (op : BinaryConnective) (l r : Formula) :
    phrase m (.binary op l r) =
      lead (.binary op) ++ (inner m l ++ (join (.binary op) ++ inner m r)) := by
  cases op with
  | conjunction | disjunction | biconditional => exact List.append_assoc _ _ _
  | conditional => exact (List.append_assoc _ _ _).trans (List.append_assoc _ _ _)

theorem inner_atom (m : Meaning) (a : Atom) : inner m (.atom a) = atomPhrase m a := rfl

/-- A formula that is no atom. -/
def Compound (f : Formula) : Prop := ∀ a, f ≠ .atom a

theorem inner_of_compound {f : Formula} (hf : Compound f) :
    inner m f = '(' :: (phrase m f ++ [')']) := by
  cases f with
  | atom a => exact absurd rfl (hf a)
  | negation f => rfl
  | binary op l r => rfl

/-- No phrase inside another one begins like a lead. -/
theorem exists_inner_eq (m : Meaning) (f : Formula) : ∃ c w, inner m f = c :: w ∧ c ≠ 'I' := by
  by_cases hf : Compound f
  · exact ⟨_, _, inner_of_compound hf, by decide⟩
  · obtain ⟨a, rfl⟩ : ∃ a, f = .atom a := by simpa [Compound] using hf
    obtain ⟨c, w, ha, hc, -⟩ := exists_atomPhrase_eq m a
    exact ⟨c, w, ha, hc⟩

/-- Behind a lead comes the first phrase. -/
theorem lead_append_inj {b c : Connective} {f g : Formula}
    (h : lead b ++ (inner m f ++ s) = lead c ++ (inner m g ++ t)) :
    inner m f ++ s = inner m g ++ t := by
  obtain ⟨x₁, w₁, hf, hx₁⟩ := exists_inner_eq m f
  obtain ⟨x₂, w₂, hg, hx₂⟩ := exists_inner_eq m g
  rcases lead_cases b with hb | hb <;> rcases lead_cases c with hc | hc <;>
    rw [hb, hc] at h
  · exact h
  · rw [hf] at h
    exact absurd (List.cons.inj h).1 hx₁
  · rw [hg] at h
    exact absurd (List.cons.inj h).1.symm hx₂
  · exact List.append_cancel_left h

/-- The text of the phrase inside another one determines the formula and what follows it. -/
def Readable (m : Meaning) (f : Formula) : Prop :=
  ∀ {g : Formula} {s t : List Char}, Behind s → Behind t → inner m f ++ s = inner m g ++ t →
    f = g ∧ s = t

theorem readable_atom (hm : m.Legible) (a : Atom) : Readable m (.atom a) := by
  intro g s t hs ht h
  rw [inner_atom] at h
  by_cases hg : Compound g
  · obtain ⟨c, w, ha, -, hc⟩ := exists_atomPhrase_eq m a
    rw [ha, inner_of_compound hg] at h
    exact absurd (List.cons.inj h).1 hc
  · obtain ⟨b, rfl⟩ : ∃ b, g = .atom b := by simpa [Compound] using hg
    obtain ⟨rfl, hst⟩ := atomPhrase_append_inj hm hs ht h
    exact ⟨rfl, hst⟩

/-- A phrase in parentheses is determined by what is inside them. -/
theorem Readable.of_phrase {f : Formula} (hf : Compound f)
    (h : ∀ {g : Formula} {s t : List Char}, Ending s → Ending t →
      phrase m f ++ s = phrase m g ++ t → f = g ∧ s = t) : Readable m f := by
  intro g s t hs ht hfg
  rw [inner_of_compound hf] at hfg
  by_cases hg : Compound g
  · rw [inner_of_compound hg] at hfg
    have hphrase : phrase m f ++ ')' :: s = phrase m g ++ ')' :: t := by
      simpa using hfg
    obtain ⟨rfl, hst⟩ := h (Ending.closing s) (Ending.closing t) hphrase
    exact ⟨rfl, (List.cons.inj hst).2⟩
  · obtain ⟨b, rfl⟩ : ∃ b, g = .atom b := by simpa [Compound] using hg
    obtain ⟨c, w, hb, -, hc⟩ := exists_atomPhrase_eq m b
    rw [inner_atom, hb] at hfg
    exact absurd (List.cons.inj hfg).1.symm hc

/-- Behind the first phrase of a compound one comes a join, and nothing that ends a phrase. -/
theorem phrase_atom_append_ne {c : Connective} {f : Formula} {a : Atom} {rest : List Char}
    (hf : Readable m f) (ht : Ending t) :
    lead c ++ (inner m f ++ (join c ++ rest)) ≠ phrase m (.atom a) ++ t := by
  intro h
  have hatom : lead c ++ (inner m f ++ (join c ++ rest)) =
      lead .negation ++ (inner m (.atom a) ++ t) := h
  obtain ⟨-, hjoin⟩ := hf (behind_join c rest) ht.behind (lead_append_inj hatom)
  exact ht.ne_join c rest hjoin.symm

/-- Compound phrases that begin the same are joined the same. -/
theorem compound_append_inj {b c : Connective} {f g : Formula} (hf : Readable m f)
    (h : lead b ++ (inner m f ++ (join b ++ s)) = lead c ++ (inner m g ++ (join c ++ t))) :
    f = g ∧ b = c ∧ s = t := by
  obtain ⟨hfg, hjoin⟩ := hf (behind_join b s) (behind_join c t) (lead_append_inj h)
  exact ⟨hfg, join_append_inj hjoin⟩

theorem phrase_negation_append (m : Meaning) (f : Formula) (s : List Char) :
    phrase m (.negation f) ++ s = lead .negation ++ (inner m f ++ (join .negation ++ s)) := by
  rw [phrase_negation, List.append_assoc, List.append_assoc]

theorem phrase_binary_append (m : Meaning) (op : BinaryConnective) (l r : Formula)
    (s : List Char) :
    phrase m (.binary op l r) ++ s =
      lead (.binary op) ++ (inner m l ++ (join (.binary op) ++ (inner m r ++ s))) := by
  rw [phrase_binary, List.append_assoc, List.append_assoc, List.append_assoc]

theorem phrase_negation_append_inj {f g : Formula} (hf : Readable m f) (ht : Ending t)
    (h : phrase m (.negation f) ++ s = phrase m g ++ t) : .negation f = g ∧ s = t := by
  rw [phrase_negation_append] at h
  cases g with
  | atom a => exact absurd h (phrase_atom_append_ne hf ht)
  | negation g =>
    rw [phrase_negation_append] at h
    obtain ⟨rfl, -, hst⟩ := compound_append_inj hf h
    exact ⟨rfl, hst⟩
  | binary op l r =>
    rw [phrase_binary_append] at h
    obtain ⟨-, hop, -⟩ := compound_append_inj hf h
    cases hop

theorem phrase_binary_append_inj {op : BinaryConnective} {l r g : Formula} (hl : Readable m l)
    (hr : Readable m r) (hs : Ending s) (ht : Ending t)
    (h : phrase m (.binary op l r) ++ s = phrase m g ++ t) : .binary op l r = g ∧ s = t := by
  rw [phrase_binary_append] at h
  cases g with
  | atom a => exact absurd h (phrase_atom_append_ne hl ht)
  | negation g =>
    rw [phrase_negation_append] at h
    obtain ⟨-, hop, -⟩ := compound_append_inj hl h
    cases hop
  | binary op' l' r' =>
    rw [phrase_binary_append] at h
    obtain ⟨rfl, hop, hright⟩ := compound_append_inj hl h
    cases hop
    obtain ⟨rfl, hst⟩ := hr hs.behind ht.behind hright
    exact ⟨rfl, hst⟩

/-- **Phrases are uniquely readable.** -/
theorem readable (hm : m.Legible) (f : Formula) : Readable m f := by
  induction f with
  | atom a => exact readable_atom hm a
  | negation f ih =>
    exact Readable.of_phrase (fun _ => Formula.noConfusion) fun _ ht h =>
      phrase_negation_append_inj ih ht h
  | binary op l r ihl ihr =>
    exact Readable.of_phrase (fun _ => Formula.noConfusion) fun hs ht h =>
      phrase_binary_append_inj ihl ihr hs ht h

/-- **So are phrases without parentheses around them**, as long as these end there. -/
theorem phrase_append_inj (hm : m.Legible) {f g : Formula} (hs : Ending s) (ht : Ending t)
    (h : phrase m f ++ s = phrase m g ++ t) : f = g ∧ s = t := by
  cases f with
  | negation f => exact phrase_negation_append_inj (readable hm f) ht h
  | binary op l r => exact phrase_binary_append_inj (readable hm l) (readable hm r) hs ht h
  | atom a =>
    cases g with
    | atom b => exact readable hm (.atom a) hs.behind ht.behind h
    | negation g =>
      rw [phrase_negation_append] at h
      exact absurd h.symm (phrase_atom_append_ne (readable hm g) hs)
    | binary op l r =>
      rw [phrase_binary_append] at h
      exact absurd h.symm (phrase_atom_append_ne (readable hm l) hs)

theorem sentence_injective (hm : m.Legible) {f g : Formula} (h : sentence m f = sentence m g) :
    f = g := by
  have hphrase : phrase m f ++ [] = phrase m g ++ [] := by
    rw [List.append_nil, List.append_nil]
    exact String.ofList_inj.mp h
  exact (phrase_append_inj hm (.inl rfl) (.inl rfl) hphrase).1

end English
end Sentential
