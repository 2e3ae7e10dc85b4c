/-
# No call is left out of a run

Where a formula is read inside another one, the reader calls itself.  `Calls` lists these calls by
the text and the number of open nestings that they are given: the operand behind a tilde, the left
one behind a parenthesis, and the right one where the left one and the connective have ended.  The
run of the reader has the runs of all of them in it, stream by stream, so that none of their
streams is missing where a run is said to be balanced.

* `Calls.depth_eq`: a call is made with one more nesting open;
* `formula_eq_of_calls`: the reader makes no other calls;
* `Run.streams_of_calls`: the runs of the calls are parts of the run of the reader.
-/
import Sentential.Proofs.Formula.Balance

namespace Sentential
namespace Reader

/-! ## 1. Calls -/

/-- The formula reader that is given `text` with `d` nestings open calls itself, and gives `rest`
with `d'` nestings open. -/
inductive Calls : List Char → Nat → List Char → Nat → Prop where
  /-- Behind a tilde. -/
  | operand {rest : List Char} {d : Nat} (hd : d < maxDepth) : Calls ('~' :: rest) d rest (d + 1)
  /-- Behind a parenthesis. -/
  | left {rest : List Char} {d : Nat} (hd : d < maxDepth) : Calls ('(' :: rest) d rest (d + 1)
  /-- Behind the connective. -/
  | right {rest rest₁ rest₂ : List Char} {d d₁ d₂ : Nat} {l : Formula} {op : BinaryConnective}
      {h₁ : rest₁.length < rest.length} {h₂ : rest₂.length < rest₁.length} (hd : d < maxDepth)
      (hl : formula rest (d + 1) = .ok l rest₁ d₁ h₁)
      (hop : binaryConnective rest₁ d₁ = .ok op rest₂ d₂ h₂) : Calls ('(' :: rest) d rest₂ d₂

theorem ok_of_token {c : Char} {text rest : List Char} {d d' : Nat} {u : Unit}
    {h : rest.length < text.length} (hread : token c text d = .ok u rest d' h) :
    text = c :: rest ∧ d' = d := by
  have hmeets := token_meets c text d
  rw [hread] at hmeets
  exact ⟨hmeets.2, hmeets.1⟩

/-- **Every call is made with one more nesting open**, and never beyond the limit. -/
theorem Calls.depth_eq {text rest : List Char} {d d' : Nat} (h : Calls text d rest d') :
    d' = d + 1 ∧ d' ≤ maxDepth := by
  cases h with
  | operand hd => exact ⟨rfl, hd⟩
  | left hd => exact ⟨rfl, hd⟩
  | @right rest rest₁ rest₂ _ d₁ _ l op h₁ h₂ hd hl hop =>
    have hleft : (formula rest (d + 1)).depth = d + 1 := by
      rw [← Run.outcome_formula]
      exact (Run.formula_balanced rest hd).depth_eq
    rw [hl] at hleft
    obtain rfl : d₁ = d + 1 := hleft
    have hconnective : (binaryConnective rest₁ (d + 1)).depth = d + 1 :=
      (Run.binaryConnective_balanced rest₁ hd).depth_eq
    rw [hop] at hconnective
    obtain rfl : d' = d + 1 := hconnective
    exact ⟨rfl, hd⟩

/-! ## 2. There are no others -/

namespace Outcome

variable {α β : Type} {n d : Nat} {o : Outcome α n}

theorem andThen_congr {next next' : α → (rest : List Char) → rest.length < n → Nat →
    Outcome β rest.length}
    (h : ∀ a rest depth hr, o = .ok a rest depth hr →
      next a rest hr depth = next' a rest hr depth) :
    o.andThen next = o.andThen next' := by
  cases o with
  | ok a rest depth hr => rw [andThen, andThen, h a rest depth hr rfl]
  | noMatch e rest depth => rfl
  | failure e rest depth => rfl

theorem orElse_congr {other other' : Nat → Outcome α n} (hd : o.depth = d)
    (h : other d = other' d) : o.orElse other = o.orElse other' := by
  subst hd
  cases o with
  | ok a rest depth hr => rfl
  | noMatch e rest depth => exact h
  | failure e rest depth => rfl

end Outcome

variable {text : List Char} {d : Nat}

theorem nested_congr {α : Type} {n : Nat} {body body' : Nat → Outcome α n}
    (h : d < maxDepth → body (d + 1) = body' (d + 1)) :
    nested text d body = nested text d body' := by
  unfold nested
  split
  · rfl
  · next hd => rw [h (Nat.lt_of_not_le hd)]

/-- The reader for the formulas inside does what the formula reader does, where it is called. -/
def Inner.AnswersCalls (inner : Inner text) (d : Nat) : Prop :=
  ∀ rest h d', Calls text d rest d' → inner rest h d' = formula rest d'

theorem negation_eq_of_calls {inner : Inner text} (h : inner.AnswersCalls d) :
    negation text d inner = negation text d fun rest _ depth => formula rest depth := by
  refine Outcome.andThen_congr fun u rest depth hr htoken => ?_
  obtain ⟨rfl, rfl⟩ := ok_of_token htoken
  refine congrArg Outcome.committed (nested_congr fun hd => ?_)
  rw [h rest hr _ (.operand hd)]

theorem parenthesised_eq_of_calls {inner : Inner text} (h : inner.AnswersCalls d) :
    parenthesised text d inner = parenthesised text d fun rest _ depth => formula rest depth := by
  refine Outcome.andThen_congr fun u rest depth hr htoken => ?_
  obtain ⟨rfl, rfl⟩ := ok_of_token htoken
  refine congrArg Outcome.committed (nested_congr fun hd => ?_)
  rw [h rest hr _ (.left hd)]
  refine Outcome.andThen_congr fun l rest₁ d₁ h₁ hl => ?_
  refine Outcome.andThen_congr fun op rest₂ d₂ h₂ hop => ?_
  rw [h rest₂ _ d₂ (.right hd hl hop)]

/-- **The formula reader makes no other calls**: it does the same with any reader inside that does
the same where it is called. -/
theorem formula_eq_of_calls {inner : Inner text} (hd : d ≤ maxDepth) (h : inner.AnswersCalls d) :
    formula text d =
      (atom text d).orElse fun depth => (negation text depth inner).orElse fun depth =>
        parenthesised text depth inner := by
  have hatom : (atom text d).depth = d := (Run.atom_balanced text hd).depth_eq
  have hrun : (Run.negation text d fun rest _ depth => Run.formula rest depth).Balanced text d :=
    Run.negation_balanced hd fun rest _ hlt => Run.formula_balanced rest hlt
  have hnegation : (negation text d fun rest _ depth => formula rest depth).depth = d := by
    simpa only [Run.outcome_negation, Run.outcome_formula] using hrun.depth_eq
  rw [formula]
  refine Outcome.orElse_congr hatom ?_
  rw [negation_eq_of_calls h]
  exact Outcome.orElse_congr hnegation (parenthesised_eq_of_calls h).symm

/-! ## 3. What is part of a run -/

namespace Run

variable {α β : Type} {n : Nat} {part : List Stream}

theorem infix_orElse_left {r : Run α n} {other : Nat → Run α n} (h : part <:+: r.streams) :
    part <:+: (r.orElse other).streams := by
  obtain ⟨o, streams⟩ := r
  cases o with
  | ok a rest depth hr => exact h
  | noMatch e rest depth => exact h.trans (List.prefix_append _ _).isInfix
  | failure e rest depth => exact h

theorem infix_orElse_right {r : Run α n} {other : Nat → Run α n} {e : SyntaxError}
    {rest : List Char} {depth : Nat} (hr : r.outcome = .noMatch e rest depth)
    (h : part <:+: (other depth).streams) : part <:+: (r.orElse other).streams := by
  rw [orElse, hr]
  exact h.trans (List.suffix_append _ _).isInfix

theorem infix_andThen_left {r : Run α n}
    {next : α → (rest : List Char) → rest.length < n → Nat → Run β rest.length}
    (h : part <:+: r.streams) : part <:+: (r.andThen next).streams := by
  obtain ⟨o, streams⟩ := r
  cases o with
  | ok a rest depth hr => exact h.trans (List.prefix_append _ _).isInfix
  | noMatch e rest depth => exact h
  | failure e rest depth => exact h

theorem infix_andThen_right {r : Run α n}
    {next : α → (rest : List Char) → rest.length < n → Nat → Run β rest.length} {a : α}
    {rest : List Char} {depth : Nat} {hlt : rest.length < n}
    (hr : r.outcome = .ok a rest depth hlt)
    (h : part <:+: (next a rest hlt depth).streams) : part <:+: (r.andThen next).streams := by
  rw [andThen]
  simp only [hr]
  exact h.trans (List.suffix_append _ _).isInfix

theorem infix_nested {body : Nat → Run α n} (hd : d < maxDepth)
    (h : part <:+: (body (d + 1)).streams) : part <:+: (nested text d body).streams := by
  rw [nested, enclosed]
  simp only [if_neg (Nat.not_le_of_lt hd)]
  refine h.trans ?_
  exact (List.prefix_append _ _).isInfix.trans (List.suffix_cons _ _).isInfix

theorem outcome_token_cons (c : Char) (rest : List Char) (d : Nat) :
    (token c (c :: rest) d).outcome = .ok () rest d (Nat.lt_succ_self _) :=
  if_pos rfl

/-! ## 4. The runs of the calls -/

theorem atom_noMatch {c : Char} (hc : Atom.ofChar? c = none) (rest : List Char) (d : Nat) :
    (atom (c :: rest) d).outcome = .noMatch (.unexpected (c :: rest)) (c :: rest) d := by
  show Reader.atom (c :: rest) d = _
  rw [Reader.atom, hc]

theorem negation_noMatch {c : Char} (hc : c ≠ '~') (rest : List Char) (d : Nat)
    (inner : Inner (c :: rest)) :
    (negation (c :: rest) d inner).outcome = .noMatch (.unexpected (c :: rest)) (c :: rest) d := by
  rw [outcome_negation, Reader.negation, Reader.token, if_neg hc]
  rfl

theorem infix_operand {rest : List Char}
    (h : part <:+: (operand rest d (formula rest)).streams) :
    part <:+: (formula ('~' :: rest) d).streams := by
  rw [formula]
  refine infix_orElse_right (atom_noMatch rfl rest d) (infix_orElse_left ?_)
  exact infix_andThen_right (outcome_token_cons '~' rest d) h

theorem infix_operands {rest : List Char}
    (h : part <:+: (operands rest (Nat.lt_succ_self _) d
      fun rest _ depth => formula rest depth).streams) :
    part <:+: (formula ('(' :: rest) d).streams := by
  rw [formula]
  refine infix_orElse_right (atom_noMatch rfl rest d) ?_
  refine infix_orElse_right (negation_noMatch (by decide) rest d _) ?_
  exact infix_andThen_right (outcome_token_cons '(' rest d) h

/-- **The run of the formula reader has the runs of all its calls in it.** -/
theorem streams_of_calls {rest : List Char} {d' : Nat} (h : Calls text d rest d') :
    (formula rest d').streams <:+: (formula text d).streams := by
  cases h with
  | operand hd =>
    refine infix_operand (infix_nested hd ?_)
    exact List.infix_rfl
  | left hd =>
    refine infix_operands (infix_nested hd ?_)
    exact infix_andThen_left List.infix_rfl
  | right hd hl hop =>
    refine infix_operands (infix_nested hd ?_)
    refine infix_andThen_right ((outcome_formula _ _).trans hl) ?_
    refine infix_andThen_right hop ?_
    exact infix_andThen_left List.infix_rfl

end Run
end Reader
end Sentential
