/-
# Canonical texts are uniquely readable

A text that begins with the canonical text of a formula determines the formula and what follows
it.  No limit on the nesting is involved: the first character says whether an atom, a negation or
a parenthesis follows, and no token of a connective is the beginning of another one.

* `Connective.token_append_inj`: the tokens of the connectives can be told apart;
* `Formula.text_append_inj`: so can the texts of formulas.
-/
import Sentential.Formula

namespace Sentential

/-! ## 1. Tokens -/

namespace Connective

/-- **No token is the beginning of another one.**  So a text that begins with a connective
determines it. -/
theorem token_append_inj {b c : Connective} {s t : List Char}
    (h : b.token ++ s = c.token ++ t) : b = c ∧ s = t := by
  cases b with
  | negation =>
    cases c with
    | negation => exact ⟨rfl, List.append_cancel_left h⟩
    | binary op' => cases op' <;> simp [token, BinaryConnective.token] at h
  | binary op =>
    cases c with
    | negation => cases op <;> simp [token, BinaryConnective.token] at h
    | binary op' =>
      cases op <;> cases op' <;> simp_all [token, BinaryConnective.token]

theorem length_token (c : Connective) : c.token.length = 1 ∨ c.token.length = 2 := by
  cases c with
  | negation => exact .inl rfl
  | binary op => cases op <;> simp [token, BinaryConnective.token]

theorem ofTokenOfLength?_eq_some_iff {n : Nat} {t : List Char} {c : Connective} :
    ofTokenOfLength? n t = some c ↔ c.token = t ∧ t.length = n := by
  unfold ofTokenOfLength?
  split
  · next ht => rw [ofToken?_eq_some_iff]; exact ⟨fun hc => ⟨hc, ht⟩, fun hc => hc.1⟩
  · next ht => exact ⟨fun hc => absurd hc.symm (Option.some_ne_none c), fun hc => absurd hc.2 ht⟩

end Connective

theorem BinaryConnective.token_append_inj {op op' : BinaryConnective} {s t : List Char}
    (h : op.token ++ s = op'.token ++ t) : op = op' ∧ s = t := by
  obtain ⟨hc, hst⟩ := Connective.token_append_inj (b := .binary op) (c := .binary op') h
  exact ⟨Connective.binary.inj hc, hst⟩

namespace Atom

theorem name_injective {a a' : Atom} (h : a.name = a'.name) : a = a' :=
  Option.some.inj ((ofChar?_eq_some_iff.mpr h).symm.trans (ofChar?_eq_some_iff.mpr rfl))

theorem name_ne_of_ofChar? {c : Char} (h : ofChar? c = none) (a : Atom) : a.name ≠ c := by
  intro ha
  rw [ofChar?_eq_some_iff.mpr ha] at h
  exact Option.some_ne_none a h

theorem name_ne_tilde (a : Atom) : a.name ≠ '~' := name_ne_of_ofChar? (by decide) a

theorem name_ne_opening (a : Atom) : a.name ≠ '(' := name_ne_of_ofChar? (by decide) a

end Atom

/-! ## 2. Formulas -/

namespace Formula

/-- The text of a binary formula with something behind it, one token after another. -/
theorem text_binary_append (op : BinaryConnective) (l r : Formula) (s : List Char) :
    (binary op l r).text ++ s = '(' :: (l.text ++ (op.token ++ (r.text ++ ')' :: s))) := by
  simp [text]

/-- **Unique readability.**  A text that begins with the text of a formula determines the
formula and what follows it. -/
theorem text_append_inj {f g : Formula} {s t : List Char} (h : f.text ++ s = g.text ++ t) :
    f = g ∧ s = t := by
  induction f generalizing g s t with
  | atom a =>
    cases g with
    | atom b =>
      obtain ⟨hab, hst⟩ := List.cons.inj h
      exact ⟨congrArg atom (Atom.name_injective hab), hst⟩
    | negation g => exact absurd (List.cons.inj h).1 (Atom.name_ne_tilde a)
    | binary op l r => exact absurd (List.cons.inj h).1 (Atom.name_ne_opening a)
  | negation f ih =>
    cases g with
    | atom b => exact absurd (List.cons.inj h).1.symm (Atom.name_ne_tilde b)
    | negation g =>
      obtain ⟨rfl, hst⟩ := ih (List.cons.inj h).2
      exact ⟨rfl, hst⟩
    | binary op l r => exact absurd (List.cons.inj h).1 (by decide)
  | binary op l r ihl ihr =>
    cases g with
    | atom b => exact absurd (List.cons.inj h).1.symm (Atom.name_ne_opening b)
    | negation g => exact absurd (List.cons.inj h).1 (by decide)
    | binary op' l' r' =>
      rw [text_binary_append, text_binary_append] at h
      obtain ⟨rfl, hop⟩ := ihl (List.cons.inj h).2
      obtain ⟨rfl, hr⟩ := BinaryConnective.token_append_inj hop
      obtain ⟨rfl, hst⟩ := ihr hr
      exact ⟨rfl, (List.cons.inj hst).2⟩

end Formula
end Sentential
