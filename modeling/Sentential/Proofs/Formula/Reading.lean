/-
# What the readers read, and where they stop

`Reads d text f rest` says that the text begins with the formula `f` and that `f` fits under `d`
open nestings.  `Stops d text e` says where a text that begins with no such formula goes wrong: it
has one case for each place at which something is expected that is not there.  Both are stated
without the readers.  This file proves that a reader does the one or the other, and gives the
counter back as it found it:

* `Reader.Stops.not_reads`: a text that begins with a formula stops nowhere;
* `Reader.Stops.unique`: any other text stops in one place only;
* `Reader.formula_meets`: the formula reader, by induction on the length of the text.

That a text which begins with a formula is read needs no second induction, since it cannot stop.
-/
import Sentential.Formula.Parse
import Sentential.Proofs.Formula.Readability

namespace Sentential
namespace Reader

/-! ## 1. Reading and stopping -/

/-- The text begins with the formula `f`, which fits under `d` open nestings. -/
def Reads (d : Nat) (text : List Char) (f : Formula) (rest : List Char) : Prop :=
  text = f.text ++ rest ∧ d + f.depth ≤ maxDepth

/-- The characters that a formula can begin with. -/
def Initial (c : Char) : Prop :=
  (∃ a : Atom, a.name = c) ∨ c = '~' ∨ c = '('

/-- Where the search for a formula under `d` open nestings ends, and with which error. -/
inductive Stops : Nat → List Char → SyntaxError → Prop where
  /-- No formula begins here. -/
  | operand {d : Nat} {text : List Char} (h : ∀ c s, text = c :: s → ¬ Initial c) :
      Stops d text (.unexpected text)
  /-- This nesting is one too many. -/
  | tooDeep {d : Nat} {c : Char} {rest : List Char} (hd : maxDepth ≤ d)
      (hc : c = '~' ∨ c = '(') : Stops d (c :: rest) (.tooDeep (String.ofList rest))
  /-- Inside a negation. -/
  | negation {d : Nat} {text : List Char} {e : SyntaxError} (hd : d < maxDepth)
      (h : Stops (d + 1) text e) : Stops d ('~' :: text) e
  /-- Inside the left operand. -/
  | left {d : Nat} {text : List Char} {e : SyntaxError} (hd : d < maxDepth)
      (h : Stops (d + 1) text e) : Stops d ('(' :: text) e
  /-- Behind the left operand. -/
  | connective {d : Nat} {text rest : List Char} {l : Formula} (hl : Reads (d + 1) text l rest)
      (h : ∀ (op : BinaryConnective) s, rest ≠ op.token ++ s) :
      Stops d ('(' :: text) (.missingConnective (String.ofList rest))
  /-- Inside the right operand. -/
  | right {d : Nat} {text rest : List Char} {l : Formula} {op : BinaryConnective}
      {e : SyntaxError} (hl : Reads (d + 1) text l (op.token ++ rest))
      (h : Stops (d + 1) rest e) : Stops d ('(' :: text) e
  /-- Behind the right operand. -/
  | closing {d : Nat} {text rest rest' : List Char} {l r : Formula} {op : BinaryConnective}
      (hl : Reads (d + 1) text l (op.token ++ rest)) (hr : Reads (d + 1) rest r rest')
      (h : ∀ s, rest' ≠ ')' :: s) :
      Stops d ('(' :: text) (.unclosedParenthesis (String.ofList rest'))

theorem initial_of_text {f : Formula} {c : Char} {s t : List Char} (h : f.text ++ s = c :: t) :
    Initial c := by
  cases f with
  | atom a => exact Or.inl ⟨a, (List.cons.inj h).1⟩
  | negation f => exact Or.inr (Or.inl (List.cons.inj h).1.symm)
  | binary op l r => exact Or.inr (Or.inr (List.cons.inj h).1.symm)

namespace Reads

variable {d d' : Nat} {text rest rest' : List Char} {f f' : Formula}

/-- A formula in front of a text is the only one there. -/
theorem unique (h : Reads d text f rest) (h' : Reads d' text f' rest') : f = f' ∧ rest = rest' :=
  Formula.text_append_inj (h.1.symm.trans h'.1)

theorem le_maxDepth (h : Reads d text f rest) : d ≤ maxDepth :=
  Nat.le_trans (Nat.le_add_right _ _) h.2

theorem atom (hd : d ≤ maxDepth) (a : Atom) (rest : List Char) :
    Reads d (a.name :: rest) (.atom a) rest :=
  ⟨rfl, hd⟩

theorem negation (h : Reads (d + 1) text f rest) : Reads d ('~' :: text) (.negation f) rest := by
  obtain ⟨rfl, hd⟩ := h
  exact ⟨rfl, by rw [Formula.depth]; omega⟩

theorem binary {op : BinaryConnective} {behind : List Char}
    (hl : Reads (d + 1) text f (op.token ++ behind)) (hr : Reads (d + 1) behind f' (')' :: rest)) :
    Reads d ('(' :: text) (.binary op f f') rest := by
  obtain ⟨rfl, hdl⟩ := hl
  obtain ⟨rfl, hdr⟩ := hr
  exact ⟨(Formula.text_binary_append op f f' rest).symm, by rw [Formula.depth]; omega⟩

/-- Only a negation begins with a tilde. -/
theorem of_tilde (h : Reads d ('~' :: text) f rest) :
    ∃ g, f = .negation g ∧ Reads (d + 1) text g rest := by
  obtain ⟨ht, hd⟩ := h
  cases f with
  | atom a => exact absurd (List.cons.inj ht).1.symm (Atom.name_ne_tilde a)
  | negation g =>
    rw [Formula.depth] at hd
    exact ⟨g, rfl, (List.cons.inj ht).2, by omega⟩
  | binary op l r => exact absurd (List.cons.inj ht).1 (by decide)

/-- Only a binary formula begins with a parenthesis. -/
theorem of_opening (h : Reads d ('(' :: text) f rest) :
    ∃ op l r behind, f = .binary op l r ∧ Reads (d + 1) text l (op.token ++ behind) ∧
      Reads (d + 1) behind r (')' :: rest) := by
  obtain ⟨ht, hd⟩ := h
  cases f with
  | atom a => exact absurd (List.cons.inj ht).1.symm (Atom.name_ne_opening a)
  | negation g => exact absurd (List.cons.inj ht).1 (by decide)
  | binary op l r =>
    rw [Formula.text_binary_append] at ht
    rw [Formula.depth] at hd
    exact ⟨op, l, r, r.text ++ ')' :: rest, rfl, ⟨(List.cons.inj ht).2, by omega⟩, rfl, by omega⟩

end Reads

/-- **A text that begins with a formula stops nowhere.** -/
theorem Stops.not_reads {d : Nat} {text : List Char} {e : SyntaxError} (h : Stops d text e)
    (f : Formula) (rest : List Char) : ¬ Reads d text f rest := by
  induction h generalizing f rest with
  | @operand d text h =>
    intro hf
    cases text with
    | nil => exact Formula.text_ne_nil f (List.append_eq_nil_iff.mp hf.1.symm).1
    | cons c s => exact h c s rfl (initial_of_text hf.1.symm)
  | @tooDeep d c s hd hc =>
    intro hf
    rcases hc with rfl | rfl
    · obtain ⟨g, -, hg⟩ := hf.of_tilde
      exact absurd hg.2 (by omega)
    · obtain ⟨op, l, r, behind, -, hl, -⟩ := hf.of_opening
      exact absurd hl.2 (by omega)
  | negation hd h ih =>
    intro hf
    obtain ⟨g, -, hg⟩ := hf.of_tilde
    exact ih g rest hg
  | left hd h ih =>
    intro hf
    obtain ⟨op, l, r, behind, -, hl, -⟩ := hf.of_opening
    exact ih l _ hl
  | connective hl h =>
    intro hf
    obtain ⟨op, l', r, behind, -, hl', -⟩ := hf.of_opening
    exact h op behind (hl.unique hl').2
  | right hl h ih =>
    intro hf
    obtain ⟨op, l', r, behind, -, hl', hr'⟩ := hf.of_opening
    obtain ⟨-, rfl⟩ := BinaryConnective.token_append_inj (hl.unique hl').2
    exact ih r _ hr'
  | closing hl hr h =>
    intro hf
    obtain ⟨op, l', r', behind, -, hl', hr'⟩ := hf.of_opening
    obtain ⟨-, rfl⟩ := BinaryConnective.token_append_inj (hl.unique hl').2
    exact h rest (hr.unique hr').2

/-- **A text stops in one place only.**  Where it stops inside an operand no formula is read, so
the cases of a parenthesis exclude each other. -/
theorem Stops.unique {d : Nat} {text : List Char} {e e' : SyntaxError} (h : Stops d text e)
    (h' : Stops d text e') : e = e' := by
  induction h generalizing e' with
  | operand h =>
    cases h' with
    | operand _ => rfl
    | tooDeep _ hc => exact absurd (Or.inr hc) (h _ _ rfl)
    | negation => exact absurd (.inr (.inl rfl)) (h _ _ rfl)
    | left | connective | right | closing => exact absurd (.inr (.inr rfl)) (h _ _ rfl)
  | tooDeep hd hc =>
    cases h' with
    | operand h => exact absurd (Or.inr hc) (h _ _ rfl)
    | tooDeep => rfl
    | negation hlt _ | left hlt _ => exact absurd hd (Nat.not_le_of_lt hlt)
    | connective hl _ | right hl _ | closing hl _ _ =>
      exact absurd hd (Nat.not_le_of_lt hl.le_maxDepth)
  | negation hlt _ ih =>
    cases h' with
    | operand h => exact absurd (.inr (.inl rfl)) (h _ _ rfl)
    | tooDeep hd _ => exact absurd hd (Nat.not_le_of_lt hlt)
    | negation _ h => exact ih h
  | left hlt h ih =>
    cases h' with
    | operand h => exact absurd (.inr (.inr rfl)) (h _ _ rfl)
    | tooDeep hd _ => exact absurd hd (Nat.not_le_of_lt hlt)
    | left _ h => exact ih h
    | connective hl _ | right hl _ | closing hl _ _ => exact absurd hl (h.not_reads _ _)
  | connective hl hop =>
    cases h' with
    | operand h => exact absurd (.inr (.inr rfl)) (h _ _ rfl)
    | tooDeep hd _ => exact absurd hd (Nat.not_le_of_lt hl.le_maxDepth)
    | left _ h => exact absurd hl (h.not_reads _ _)
    | connective hl' _ => rw [(hl.unique hl').2]
    | right hl' _ | closing hl' _ _ => exact absurd (hl.unique hl').2 (hop _ _)
  | right hl h ih =>
    cases h' with
    | operand h => exact absurd (.inr (.inr rfl)) (h _ _ rfl)
    | tooDeep hd _ => exact absurd hd (Nat.not_le_of_lt hl.le_maxDepth)
    | left _ h => exact absurd hl (h.not_reads _ _)
    | connective hl' hop => exact absurd (hl'.unique hl).2 (hop _ _)
    | right hl' h' =>
      obtain ⟨-, rfl⟩ := BinaryConnective.token_append_inj (hl.unique hl').2
      exact ih h'
    | closing hl' hr' _ =>
      obtain ⟨-, rfl⟩ := BinaryConnective.token_append_inj (hl.unique hl').2
      exact absurd hr' (h.not_reads _ _)
  | closing hl hr hc =>
    cases h' with
    | operand h => exact absurd (.inr (.inr rfl)) (h _ _ rfl)
    | tooDeep hd _ => exact absurd hd (Nat.not_le_of_lt hl.le_maxDepth)
    | left _ h => exact absurd hl (h.not_reads _ _)
    | connective hl' hop => exact absurd (hl'.unique hl).2 (hop _ _)
    | right hl' h' =>
      obtain ⟨-, rfl⟩ := BinaryConnective.token_append_inj (hl.unique hl').2
      exact absurd hr (h'.not_reads _ _)
    | closing hl' hr' _ =>
      obtain ⟨-, rfl⟩ := BinaryConnective.token_append_inj (hl.unique hl').2
      rw [(hr.unique hr').2]

/-- Behind a formula nothing is expected, so nothing stops there. -/
theorem Stops.ne_trailingCharacters {d : Nat} {text : List Char} {e : SyntaxError}
    (h : Stops d text e) (r : String) : e ≠ .trailingCharacters r := by
  induction h with
  | @operand d text h => cases text <;> exact SyntaxError.noConfusion
  | tooDeep hd hc => exact SyntaxError.noConfusion
  | negation hd h ih => exact ih
  | left hd h ih => exact ih
  | connective hl h => exact SyntaxError.noConfusion
  | right hl h ih => exact ih
  | closing hl hr h => exact SyntaxError.noConfusion

/-! ## 2. What an outcome says -/

namespace Outcome

variable {α β : Type} {n : Nat} {d : Nat} {Q : α → List Char → Prop} {N E : SyntaxError → Prop}

/-- The counter is back at `d`, and `Q`, `N` and `E` hold of what was read with the text behind
it, of the error before another reader is tried, and of the error after which none may be. -/
def Meets (d : Nat) (Q : α → List Char → Prop) (N E : SyntaxError → Prop) : Outcome α n → Prop
  | ok a rest depth _ => depth = d ∧ Q a rest
  | noMatch e _ depth => depth = d ∧ N e
  | failure e _ depth => depth = d ∧ E e

theorem Meets.imp {Q' : α → List Char → Prop} {N' E' : SyntaxError → Prop} {o : Outcome α n}
    (h : o.Meets d Q N E) (hQ : ∀ a rest, Q a rest → Q' a rest) (hN : ∀ e, N e → N' e)
    (hE : ∀ e, E e → E' e) : o.Meets d Q' N' E' := by
  cases o with
  | ok a rest depth shorter => exact ⟨h.1, hQ a rest h.2⟩
  | noMatch e rest depth => exact ⟨h.1, hN e h.2⟩
  | failure e rest depth => exact ⟨h.1, hE e h.2⟩

theorem Meets.map {Q' : β → List Char → Prop} {f : α → β} {o : Outcome α n}
    (h : o.Meets d (fun a rest => Q' (f a) rest) N E) : (o.map f).Meets d Q' N E := by
  cases o <;> exact h

theorem Meets.mapDepth {o : Outcome α n} (h : o.Meets (d + 1) Q N E) :
    (o.mapDepth (· - 1)).Meets d Q N E := by
  cases o <;> exact ⟨congrArg (· - 1) h.1, h.2⟩

theorem Meets.committed {o : Outcome α n} (h : o.Meets d Q E E) :
    o.committed.Meets d Q N E := by
  cases o <;> exact h

theorem Meets.expecting {o : Outcome α n} {error : SyntaxError} {P : Prop}
    (h : o.Meets d Q (fun _ => P) (fun _ => P)) :
    (o.expecting error).Meets d Q (fun e => e = error ∧ P) (fun e => e = error ∧ P) := by
  cases o with
  | ok a rest depth shorter => exact h
  | noMatch e rest depth => exact ⟨h.1, rfl, h.2⟩
  | failure e rest depth => exact ⟨h.1, rfl, h.2⟩

/-- The second reader starts where the first one stopped, at the same counter. -/
theorem Meets.andThen {Q' : β → List Char → Prop} {o : Outcome α n}
    {next : α → (rest : List Char) → rest.length < n → Nat → Outcome β rest.length}
    (h : o.Meets d Q N E) (hnext : ∀ a rest hr, Q a rest → (next a rest hr d).Meets d Q' N E) :
    (o.andThen next).Meets d Q' N E := by
  cases o with
  | ok a rest depth shorter =>
    obtain ⟨rfl, ha⟩ := h
    have hb := hnext a rest shorter ha
    rw [Outcome.andThen]
    cases hn : next a rest shorter depth <;> rw [hn] at hb <;> exact hb
  | noMatch e rest depth => exact h
  | failure e rest depth => exact h

/-- The other reader knows that the first one did not match. -/
theorem Meets.orElse {N' : SyntaxError → Prop} {o : Outcome α n} {other : Nat → Outcome α n}
    (h : o.Meets d Q N E) (hother : ∀ e, N e → (other d).Meets d Q N' E) :
    (o.orElse other).Meets d Q N' E := by
  cases o with
  | ok a rest depth shorter => exact h
  | noMatch e rest depth =>
    obtain ⟨rfl, he⟩ := h
    exact hother e he
  | failure e rest depth => exact h

/-- Nothing has been read of `text` when the value is not accepted. -/
theorem Meets.refine {Q' : β → List Char → Prop} {o : Outcome α n} {text : List Char}
    {f : α → Option β} (h : o.Meets d Q N E)
    (hsome : ∀ a b rest, Q a rest → f a = some b → Q' b rest)
    (hnone : ∀ a rest, Q a rest → f a = none → N (.unexpected text)) :
    (o.refine text f).Meets d Q' N E := by
  cases o with
  | ok a rest depth shorter =>
    rw [Outcome.refine]
    cases hf : f a with
    | some b => exact ⟨h.1, hsome a b rest h.2 hf⟩
    | none => exact ⟨h.1, hnone a rest h.2 hf⟩
  | noMatch e rest depth => exact h
  | failure e rest depth => exact h

end Outcome

/-! ## 3. Tokens -/

variable {d : Nat} {text : List Char}

theorem token_meets (c : Char) (text : List Char) (d : Nat) :
    (token c text d).Meets d (fun _ rest => text = c :: rest)
      (fun e => e = .unexpected text ∧ ∀ s, text ≠ c :: s) (fun _ => False) := by
  cases text with
  | nil => exact ⟨rfl, rfl, fun s => by simp⟩
  | cons x rest =>
    rw [token]
    split
    · next hx => exact ⟨rfl, by rw [hx]⟩
    · next hx => exact ⟨rfl, rfl, fun s hs => hx (List.cons.inj hs).1⟩

theorem atom_meets (hd : d ≤ maxDepth) :
    (atom text d).Meets d (Reads d text) (fun _ => ∀ (a : Atom) s, text ≠ a.name :: s)
      (fun _ => False) := by
  cases text with
  | nil => exact ⟨rfl, fun a s => by simp⟩
  | cons c rest =>
    rw [atom]
    split
    · next a ha =>
      rw [← Atom.ofChar?_eq_some_iff.mp ha]
      exact ⟨rfl, Reads.atom hd a rest⟩
    · next ha =>
      exact ⟨rfl, fun a s hs => Atom.name_ne_of_ofChar? ha a (List.cons.inj hs).1.symm⟩

theorem takeToken_meets (k : Nat) (text : List Char) (d : Nat) :
    ((take k text d).refine text (Connective.ofTokenOfLength? (k + 1))).Meets d
      (fun c rest => text = c.token ++ rest)
      (fun _ => ∀ (c : Connective) s, c.token.length = k + 1 → text ≠ c.token ++ s)
      (fun _ => False) := by
  have htake : (take k text d).Meets d
      (fun token rest => token = text.take (k + 1) ∧ text = token ++ rest)
      (fun _ => ∀ (c : Connective) s, c.token.length = k + 1 → text ≠ c.token ++ s)
      (fun _ => False) := by
    unfold take
    split
    · exact ⟨rfl, rfl, (List.take_append_drop _ _).symm⟩
    · next hk =>
      refine ⟨rfl, fun c s hc ht => hk ?_⟩
      rw [ht, List.length_append]
      omega
  refine htake.refine ?_ ?_
  · rintro token c rest ⟨-, ht⟩ hc
    rw [(Connective.ofTokenOfLength?_eq_some_iff.mp hc).1]
    exact ht
  · rintro token rest ⟨htoken, -⟩ hnone c s hc ht
    rw [htoken, ht, List.take_left' hc, Connective.ofTokenOfLength?_eq_some_iff.mpr ⟨rfl, hc⟩]
      at hnone
    exact Option.some_ne_none c hnone

theorem connective_meets (text : List Char) (d : Nat) :
    (connective text d).Meets d (fun c rest => text = c.token ++ rest)
      (fun _ => ∀ (c : Connective) s, text ≠ c.token ++ s) (fun _ => False) := by
  refine (takeToken_meets 1 text d).orElse fun _ htwo => ?_
  refine (takeToken_meets 0 text d).imp (fun _ _ h => h) ?_ (fun _ h => h)
  intro _ hone c s
  rcases c.length_token with hc | hc
  · exact hone c s hc
  · exact htwo c s hc

theorem binaryConnective_meets (text : List Char) (d : Nat) :
    (binaryConnective text d).Meets d (fun op rest => text = op.token ++ rest)
      (fun e => e = .missingConnective (String.ofList text) ∧
        ∀ (op : BinaryConnective) s, text ≠ op.token ++ s)
      (fun e => e = .missingConnective (String.ofList text) ∧
        ∀ (op : BinaryConnective) s, text ≠ op.token ++ s) := by
  have h : (connective text d).Meets d (fun c rest => text = c.token ++ rest)
      (fun _ => ∀ (op : BinaryConnective) s, text ≠ op.token ++ s)
      (fun _ => ∀ (op : BinaryConnective) s, text ≠ op.token ++ s) :=
    (connective_meets text d).imp (fun _ _ h => h) (fun _ h op s => h (.binary op) s)
      (fun _ h => h.elim)
  refine (h.refine ?_ ?_).expecting
  · rintro c op rest ht hop
    cases c with
    | negation => exact absurd hop (by simp [Connective.binary?])
    | binary op' =>
      rw [Connective.binary?, Option.some.injEq] at hop
      exact hop ▸ ht
  · rintro c rest ht hnone op s hs
    cases c with
    | negation =>
      have := (Connective.token_append_inj (c := .binary op) (ht.symm.trans hs)).1
      exact Connective.noConfusion this
    | binary op' => exact absurd hnone (by simp [Connective.binary?])

theorem closing_meets (text : List Char) (d : Nat) :
    (closing text d).Meets d (fun _ rest => text = ')' :: rest)
      (fun e => e = .unclosedParenthesis (String.ofList text) ∧ ∀ s, text ≠ ')' :: s)
      (fun e => e = .unclosedParenthesis (String.ofList text) ∧ ∀ s, text ≠ ')' :: s) :=
  ((token_meets ')' text d).imp (fun _ _ h => h) (fun _ h => h.2) (fun _ h => h.elim)).expecting

/-! ## 4. Formulas -/

theorem nested_meets {α : Type} {n : Nat} {Q : α → List Char → Prop} {E : SyntaxError → Prop}
    {body : Nat → Outcome α n}
    (hdeep : maxDepth ≤ d → E (.tooDeep (String.ofList text)))
    (hbody : d < maxDepth → (body (d + 1)).Meets (d + 1) Q E E) :
    (nested text d body).Meets d Q E E := by
  unfold nested
  split
  · next hd => exact ⟨rfl, hdeep hd⟩
  · next hd => exact (hbody (Nat.lt_of_not_le hd)).mapDepth

/-- The reader for the formulas inside does its work one nesting deeper. -/
def Inner.Meets (d : Nat) (inner : Inner text) : Prop :=
  ∀ rest h, d < maxDepth →
    (inner rest h (d + 1)).Meets (d + 1) (Reads (d + 1) rest) (Stops (d + 1) rest)
      (Stops (d + 1) rest)

theorem negation_meets {inner : Inner text} (hinner : inner.Meets d) :
    (negation text d inner).Meets d (Reads d text) (fun _ => ∀ s, text ≠ '~' :: s)
      (Stops d text) := by
  refine Outcome.Meets.andThen (Q := fun _ rest => text = '~' :: rest)
    ((token_meets '~' text d).imp (fun _ _ h => h) (fun _ h => h.2) (fun _ h => h.elim)) ?_
  rintro - rest h rfl
  refine (nested_meets (fun hd => .tooDeep hd (.inl rfl)) fun hd => ?_).committed
  refine (hinner rest h hd).imp ?_ ?_ ?_ |>.map
  · exact fun f behind hf => hf.negation
  · exact fun e he => .negation hd he
  · exact fun e he => .negation hd he

theorem parenthesised_meets {inner : Inner text} (hinner : inner.Meets d) :
    (parenthesised text d inner).Meets d (Reads d text)
      (fun e => e = .unexpected text ∧ ∀ s, text ≠ '(' :: s) (Stops d text) := by
  refine Outcome.Meets.andThen (Q := fun _ rest => text = '(' :: rest)
    ((token_meets '(' text d).imp (fun _ _ h => h) (fun _ h => h) (fun _ h => h.elim)) ?_
  rintro - rest h rfl
  refine (nested_meets (fun hd => .tooDeep hd (.inr rfl)) fun hd => ?_).committed
  -- the left operand
  refine Outcome.Meets.andThen (Q := Reads (d + 1) rest) ((hinner rest h hd).imp
    (fun _ _ h => h) (fun e he => .left hd he) (fun e he => .left hd he)) ?_
  rintro l rest₁ - hl
  -- the connective
  refine Outcome.Meets.andThen (Q := fun op behind => rest₁ = op.token ++ behind)
    ((binaryConnective_meets rest₁ (d + 1)).imp (fun _ _ h => h) ?_ ?_) ?_
  · rintro e ⟨rfl, hop⟩
    exact .connective hl hop
  · rintro e ⟨rfl, hop⟩
    exact .connective hl hop
  rintro op rest₂ - rfl
  -- the right operand
  refine Outcome.Meets.andThen (Q := Reads (d + 1) rest₂) ((hinner rest₂ _ hd).imp
    (fun _ _ h => h) (fun e he => .right hl he) (fun e he => .right hl he)) ?_
  rintro r rest₃ - hr
  -- the parenthesis
  refine (closing_meets rest₃ (d + 1)).imp ?_ ?_ ?_ |>.map
  · rintro - rest₄ rfl
    exact hl.binary hr
  · rintro e ⟨rfl, hc⟩
    exact .closing hl hr hc
  · rintro e ⟨rfl, hc⟩
    exact .closing hl hr hc

/-- **The formula reader reads the formula that the text begins with, or stops.**  Whatever it
does, the counter is what it was.  The recursion is the reader's own: what is read inside is
shorter, because a token has been taken off. -/
theorem formula_meets (text : List Char) {d : Nat} (hd : d ≤ maxDepth) :
    (formula text d).Meets d (Reads d text) (Stops d text) (Stops d text) := by
  have hinner : Inner.Meets d (fun rest _ depth => formula rest depth : Inner text) :=
    fun rest _ hlt => formula_meets rest hlt
  rw [formula]
  refine Outcome.Meets.orElse
    ((atom_meets hd).imp (fun _ _ h => h) (fun _ h => h) (fun _ h => h.elim)) ?_
  intro _ hatom
  refine (negation_meets hinner).orElse fun _ htilde => ?_
  refine (parenthesised_meets hinner).imp (fun _ _ h => h) ?_ (fun _ h => h)
  rintro e ⟨rfl, hopening⟩
  -- none of the three matched, so the first character begins no formula
  refine .operand ?_
  rintro c s hs (⟨a, rfl⟩ | rfl | rfl)
  · exact hatom a s hs
  · exact htilde s hs
  · exact hopening s hs
termination_by text.length

end Reader
end Sentential
