/-
# The place that a syntax error points at

A text is viable when an accepted text begins with it.  Reading goes on exactly as long as what
has been read is viable: the error points behind a viable text, no token that stands there makes
a longer one, and the kind of the error names tokens that would have.

Inside a formula the same has to be said under some number of open nestings, and of texts behind
which more than the formula follows.  `Continues` and `Blocked` say it there, and `Opens` lists
the three ways in which a nesting can stand open, so that one lemma for each carries the two
properties outwards.

* `Stops.obstacle`: where a formula reader stops, by induction on `Stops`;
* `syntax_errors_point_at_obstacle`: what that means for a whole text.
-/
import Sentential.Proofs.Formula.RoundTrip

namespace Sentential

/-! ## 1. Tokens and accepted texts -/

/-- What formulas are written with. -/
inductive Token where
  | symbol (s : Symbol)
  | opening
  | closing
deriving DecidableEq

namespace Token

/-- The text of a token. -/
def text : Token → List Char
  | symbol s => s.text
  | opening => ['(']
  | closing => [')']

instance : ToString Token where
  toString k := String.ofList k.text

/-- The token of an atom. -/
def atom (a : Atom) : Token := symbol (.atom a)

/-- The token of a binary connective. -/
def binary (op : BinaryConnective) : Token := symbol (.connective (.binary op))

theorem toList_toString (k : Token) : (toString k).toList = k.text :=
  String.toList_ofList

@[simp] theorem text_binary (op : BinaryConnective) : (binary op).text = op.token := rfl

@[simp] theorem text_closing : closing.text = [')'] := rfl

theorem text_ne_nil (k : Token) : k.text ≠ [] := by
  cases k with
  | symbol x =>
    cases x with
    | atom a => exact List.cons_ne_nil _ _
    | connective c =>
      have hc : c.token ≠ [] := by
        rcases c.length_token with h | h <;> exact List.ne_nil_of_length_pos (by omega)
      exact hc
  | opening => exact List.cons_ne_nil _ _
  | closing => exact List.cons_ne_nil _ _

/-- Where a binary connective stands, no other token does. -/
theorem eq_binary_of_append {k : Token} {op : BinaryConnective} {s t : List Char}
    (h : k.text ++ s = op.token ++ t) : k = binary op := by
  cases k with
  | symbol x =>
    cases x with
    | atom a =>
      cases op <;>
        exact absurd (List.cons.inj h).1 (Atom.name_ne_of_ofChar? (by decide) a)
    | connective c =>
      obtain ⟨rfl, -⟩ := Connective.token_append_inj (c := .binary op) h
      rfl
  | opening => cases op <;> exact absurd (List.cons.inj h).1 (by decide)
  | closing => cases op <;> exact absurd (List.cons.inj h).1 (by decide)

end Token

/-- A text that is read: the canonical text of a formula that is not nested too deeply. -/
def Accepted (s : String) : Prop :=
  ∃ f : Formula, f.depth ≤ maxDepth ∧ s = toString f

/-- A text that an accepted text begins with. -/
def Viable (s : String) : Prop :=
  ∃ t, Accepted (s ++ t)

namespace Reader

variable {d : Nat} {s : List Char}

/-! ## 2. Texts that formulas begin with -/

/-- Some formula that fits under `d` open nestings begins with the text. -/
def Continues (d : Nat) (s : List Char) : Prop :=
  ∃ t f, Reads d (s ++ t) f []

/-- However the text goes on, it begins with no formula that fits under `d` open nestings. -/
def Blocked (d : Nat) (s : List Char) : Prop :=
  ∀ t f rest, ¬ Reads d (s ++ t) f rest

theorem Blocked.not_continues (h : Blocked d s) : ¬ Continues d s := by
  rintro ⟨t, f, hf⟩
  exact h t f [] hf

theorem continues_nil (hd : d ≤ maxDepth) : Continues d [] :=
  ⟨[Atom.name (.constant true)], _, Reads.atom hd (.constant true) []⟩

theorem Continues.of_append {t : List Char} (h : Continues d (s ++ t)) : Continues d s := by
  obtain ⟨u, f, hf⟩ := h
  exact ⟨t ++ u, f, by rwa [List.append_assoc] at hf⟩

/-- The texts that leave one nesting open: a tilde, a parenthesis, or a parenthesis with the left
operand and the connective behind it. -/
inductive Opens (d : Nat) : List Char → Prop where
  | negation : Opens d ['~']
  | left : Opens d ['(']
  | right {l : Formula} (op : BinaryConnective) (hl : d + 1 + l.depth ≤ maxDepth) :
      Opens d ('(' :: (l.text ++ op.token))

/-- What continues inside a nesting continues outside. -/
theorem Opens.continues {p : List Char} (hp : Opens d p) (h : Continues (d + 1) s) :
    Continues d (p ++ s) := by
  obtain ⟨t, f, hf⟩ := h
  have hst : s ++ t = f.text := by rw [hf.1, List.append_nil]
  cases hp with
  | negation => exact ⟨t, .negation f, hf.negation⟩
  | left =>
    -- the right operand is made up
    refine ⟨t ++ "&T)".toList, .binary .conjunction f (.atom (.constant true)), ?_⟩
    have hr : Reads (d + 1) ['T', ')'] (.atom (.constant true)) [')'] :=
      Reads.atom hf.le_maxDepth (.constant true) [')']
    have hl : Reads (d + 1) (s ++ (t ++ "&T)".toList)) f
        (BinaryConnective.token .conjunction ++ ['T', ')']) :=
      ⟨by rw [← List.append_assoc, hst]; rfl, hf.2⟩
    exact hl.binary hr
  | @right l op hl =>
    refine ⟨t ++ [')'], .binary op l f, ?_⟩
    have hr : Reads (d + 1) (s ++ (t ++ [')'])) f [')'] :=
      ⟨by rw [← List.append_assoc, hst], hf.2⟩
    have hl : Reads (d + 1) (l.text ++ (op.token ++ (s ++ (t ++ [')'])))) l
        (op.token ++ (s ++ (t ++ [')']))) := ⟨rfl, hl⟩
    simpa using hl.binary hr

/-- What is blocked inside a nesting is blocked outside. -/
theorem Opens.blocked {p : List Char} (hp : Opens d p) (h : Blocked (d + 1) s) :
    Blocked d (p ++ s) := by
  intro t f rest hf
  cases hp with
  | negation =>
    obtain ⟨g, -, hg⟩ := Reads.of_tilde hf
    exact h t g rest hg
  | left =>
    obtain ⟨op, l, r, behind, -, hl, -⟩ := Reads.of_opening hf
    exact h t l _ hl
  | @right l op hl =>
    obtain ⟨op', l', r, behind, -, hl', hr⟩ := Reads.of_opening hf
    have hread : Reads (d + 1) (l.text ++ op.token ++ s ++ t) l (op.token ++ (s ++ t)) :=
      ⟨by simp, hl⟩
    obtain ⟨-, rfl⟩ := BinaryConnective.token_append_inj (hread.unique hl').2
    exact h t r _ hr

end Reader

/-! ## 3. Obstacles -/

/-- The tokens that an error asks for. -/
def SyntaxError.Expects : SyntaxError → Token → Prop
  | .emptyInput, k => ∃ a, k = .atom a
  | .unknownToken rest, k => rest ≠ "" ∧ ∃ a, k = .atom a
  | .missingConnective _, k => ∃ op, k = .binary op
  | .unclosedParenthesis _, k => k = .closing
  | .trailingCharacters _, _ => False
  | .tooDeep _, _ => False

namespace Reader

variable {d : Nat} {text : List Char} {e : SyntaxError}

/-- The text in front of what the error carries can be continued, with a token that the error
asks for, but with no token that stands there. -/
def Obstacle (d : Nat) (text : List Char) (e : SyntaxError) : Prop :=
  ∃ pre rest, text = pre ++ rest ∧ e.remainder = String.ofList rest ∧
    (∀ k : Token, k.text <+: rest → Blocked d (pre ++ k.text)) ∧
    ∃ k, e.Expects k ∧ Continues d (pre ++ k.text)

theorem Opens.obstacle {p : List Char} (hp : Opens d p) (h : Obstacle (d + 1) text e) :
    Obstacle d (p ++ text) e := by
  obtain ⟨pre, rest, rfl, hrest, hblocked, k, hk, hcont⟩ := h
  refine ⟨p ++ pre, rest, (List.append_assoc p pre rest).symm, hrest, ?_, k, hk, ?_⟩
  · intro j hj
    rw [List.append_assoc]
    exact hp.blocked (hblocked j hj)
  · rw [List.append_assoc]
    exact hp.continues hcont

/-- **The reader stops at an obstacle**, unless the nesting is too deep.  By induction on where
it stops: the three cases inside a nesting are carried outwards, the other three are where a
formula, a connective or a parenthesis is missing. -/
theorem Stops.obstacle (h : Stops d text e) (hd : d ≤ maxDepth) (he : ∀ r, e ≠ .tooDeep r) :
    Obstacle d text e := by
  induction h with
  | @operand d text h =>
    refine ⟨[], text, rfl, SyntaxError.remainder_unexpected text, ?_, .atom (.constant true), ?_,
      ?_⟩
    · rintro k ⟨t, rfl⟩ u f rest hf
      obtain ⟨c, cs, hk⟩ := List.exists_cons_of_ne_nil k.text_ne_nil
      rw [hk] at h hf
      exact h c _ rfl (initial_of_text hf.1.symm)
    · cases text with
      | nil => exact ⟨_, rfl⟩
      | cons c cs => exact ⟨by simp, _, rfl⟩
    · exact ⟨[], _, Reads.atom hd (.constant true) []⟩
  | tooDeep hd hc => exact absurd rfl (he _)
  | negation hlt h ih => exact Opens.negation.obstacle (ih hlt he)
  | left hlt h ih => exact Opens.left.obstacle (ih hlt he)
  | @right d text rest l op e hl h ih =>
    have hp := (Opens.right op hl.2).obstacle (ih hl.le_maxDepth he)
    rwa [List.cons_append, List.append_assoc, ← hl.1] at hp
  | @connective d text rest l hl h =>
    refine ⟨'(' :: l.text, rest, by rw [List.cons_append, ← hl.1], rfl, ?_,
      .binary .conjunction, ⟨_, rfl⟩, ?_⟩
    · rintro k ⟨u, rfl⟩ t f behind hf
      obtain ⟨op, l', r, behind', -, hl', -⟩ := Reads.of_opening hf
      have hread : Reads (d + 1) (l.text ++ k.text ++ t) l (k.text ++ t) :=
        ⟨List.append_assoc _ _ _, hl.2⟩
      rw [Token.eq_binary_of_append (hread.unique hl').2] at h
      exact h op u rfl
    · simpa using (Opens.right .conjunction hl.2).continues (continues_nil hl.le_maxDepth)
  | @closing d text rest rest' l r op hl hr h =>
    have hpre : text = l.text ++ (op.token ++ (r.text ++ rest')) := by rw [← hr.1, ← hl.1]
    refine ⟨'(' :: (l.text ++ (op.token ++ r.text)), rest', by simp [hpre], rfl, ?_, .closing,
      rfl, ?_⟩
    · rintro k ⟨u, rfl⟩ t f behind hf
      obtain ⟨op', l', r', behind', -, hl', hr'⟩ := Reads.of_opening hf
      have hreadl : Reads (d + 1) (l.text ++ (op.token ++ r.text) ++ k.text ++ t) l
          (op.token ++ (r.text ++ (k.text ++ t))) := ⟨by simp, hl.2⟩
      obtain ⟨-, rfl⟩ := BinaryConnective.token_append_inj (hreadl.unique hl').2
      have hreadr : Reads (d + 1) (r.text ++ (k.text ++ t)) r (k.text ++ t) := ⟨rfl, hr.2⟩
      have hk : k.text ++ t = ')' :: behind := (hreadr.unique hr').2
      obtain ⟨c, cs, hc⟩ := List.exists_cons_of_ne_nil k.text_ne_nil
      rw [hc] at hk h
      exact h _ (by rw [(List.cons.inj hk).1]; rfl)
    · have hl' : Reads (d + 1) (l.text ++ (op.token ++ (r.text ++ [')']))) l
          (op.token ++ (r.text ++ [')'])) := ⟨rfl, hl.2⟩
      have hr' : Reads (d + 1) (r.text ++ [')']) r [')'] := ⟨rfl, hr.2⟩
      exact ⟨[], _, by simpa using hl'.binary hr'⟩

end Reader

/-! ## 4. Whole texts -/

theorem viable_iff {s : String} : Viable s ↔ Reader.Continues 0 s.toList := by
  constructor
  · rintro ⟨t, f, hf, ht⟩
    refine ⟨t.toList, f, ?_⟩
    rw [← String.toList_append]
    exact (Formula.reads_zero_iff (r := "")).mpr ⟨by rw [ht, String.append_empty], hf⟩
  · rintro ⟨t, f, hf⟩
    rw [← String.toList_ofList (l := t), ← String.toList_append] at hf
    obtain ⟨ht, hf⟩ := (Formula.reads_zero_iff (r := "")).mp hf
    exact ⟨String.ofList t, f, hf, by rwa [String.append_empty] at ht⟩

theorem Accepted.viable {s : String} (h : Accepted s) : Viable s :=
  ⟨"", by rwa [String.append_empty]⟩

/-- No token makes an accepted text longer. -/
theorem Accepted.not_viable_append {s : String} (h : Accepted s) (k : Token) :
    ¬ Viable (s ++ toString k) := by
  obtain ⟨f, -, rfl⟩ := h
  rintro ⟨t, g, -, ht⟩
  have htext : f.text ++ (k.text ++ t.toList) = g.text ++ [] := by
    simpa [← String.toList_inj, Formula.toList_toString, Token.toList_toString] using ht
  obtain ⟨-, hk⟩ := Formula.text_append_inj htext
  exact k.text_ne_nil (List.append_eq_nil_iff.mp hk).1

/-- What the kind of an error says about the text in front of the place it points at. -/
def SyntaxError.Justified (pre : String) (e : SyntaxError) : Prop :=
  match e with
  | .emptyInput => e.remainder = "" ∧ ∃ a, Viable (pre ++ toString (Token.atom a))
  | .unknownToken _ => e.remainder ≠ "" ∧ ∃ a, Viable (pre ++ toString (Token.atom a))
  | .missingConnective _ => ∃ op, Viable (pre ++ toString (Token.binary op))
  | .unclosedParenthesis _ => Viable (pre ++ toString Token.closing)
  | .trailingCharacters _ => e.remainder ≠ "" ∧ Accepted pre
  | .tooDeep _ => False

theorem SyntaxError.Expects.justified {e : SyntaxError} {k : Token} {pre : String}
    (hk : e.Expects k) (h : Viable (pre ++ toString k)) : e.Justified pre := by
  cases e with
  | emptyInput =>
    obtain ⟨a, rfl⟩ := hk
    exact ⟨rfl, a, h⟩
  | unknownToken rest =>
    obtain ⟨hrest, a, rfl⟩ := hk
    exact ⟨hrest, a, h⟩
  | missingConnective rest =>
    obtain ⟨op, rfl⟩ := hk
    exact ⟨op, h⟩
  | unclosedParenthesis rest =>
    cases hk
    exact h
  | trailingCharacters rest => exact hk.elim
  | tooDeep rest => exact hk.elim

/-- The text in front of the place that an error points at is viable, no token that stands at the
place makes a longer viable text, and the kind of the error says what would have. -/
def SyntaxError.PointsAtObstacle (s : String) (e : SyntaxError) : Prop :=
  ∃ pre, s = pre ++ e.remainder ∧ Viable pre ∧
    (∀ k : Token, k.text <+: e.remainder.toList → ¬ Viable (pre ++ toString k)) ∧
    e.Justified pre

theorem Reader.Obstacle.pointsAtObstacle {s : String} {e : SyntaxError}
    (h : Reader.Obstacle 0 s.toList e) : e.PointsAtObstacle s := by
  obtain ⟨pre, rest, hs, hrest, hblocked, k, hk, hcont⟩ := h
  have htoken : ∀ j : Token, (String.ofList pre ++ toString j).toList = pre ++ j.text := by
    intro j
    rw [String.toList_append, String.toList_ofList, Token.toList_toString]
  refine ⟨String.ofList pre, ?_, ?_, ?_, ?_⟩
  · rw [hrest, ← String.toList_inj, hs, String.toList_append, String.toList_ofList,
      String.toList_ofList]
  · rw [viable_iff, String.toList_ofList]
    exact hcont.of_append
  · intro j hj
    rw [hrest, String.toList_ofList] at hj
    rw [viable_iff, htoken]
    exact (hblocked j hj).not_continues
  · refine hk.justified ?_
    rw [viable_iff, htoken]
    exact hcont

theorem pointsAtObstacle_trailingCharacters {s r : String} {f : Formula}
    (hf : Reader.Reads 0 s.toList f r.toList) (hr : r ≠ "") :
    (SyntaxError.trailingCharacters r).PointsAtObstacle s := by
  obtain ⟨hs, hdepth⟩ := Formula.reads_zero_iff.mp hf
  have hacc : Accepted (toString f) := ⟨f, hdepth, rfl⟩
  exact ⟨toString f, hs, hacc.viable, fun k _ => hacc.not_viable_append k, hr, hacc⟩

/-- **Every syntax error points at the first place at which the text cannot be continued**, and
its kind says what was expected there.  Reading the front of a text fails with the same errors,
except that trailing characters are none to it. -/
theorem syntax_errors_point_at_obstacle (s : String) :
    (∀ e, Formula.parse s = .error e → (∀ r, e ≠ .tooDeep r) → e.PointsAtObstacle s) ∧
      (∀ e, Formula.parseFront s = .error e ↔
        Formula.parse s = .error e ∧ ∀ r, e ≠ .trailingCharacters r) ∧
      ∀ r, Formula.parse s = .error (.trailingCharacters r) →
        ∃ f, Formula.parseFront s = .ok (f, r) := by
  rcases Formula.read_cases s with ⟨f, r, hf, hfront, hs⟩ | ⟨e, he, hfront, hs⟩
  · have htrailing : ∀ e, Formula.parse s = .error e → r ≠ "" ∧ e = .trailingCharacters r := by
      intro e he
      rw [hs] at he
      split at he
      · exact absurd he (by simp)
      · next hr => exact ⟨hr, (Except.error.inj he).symm⟩
    refine ⟨?_, ?_, ?_⟩
    · intro e he _
      obtain ⟨hr, rfl⟩ := htrailing e he
      exact pointsAtObstacle_trailingCharacters hf hr
    · intro e
      rw [hfront]
      refine ⟨(fun h => nomatch h), ?_⟩
      rintro ⟨he, hne⟩
      exact absurd (htrailing e he).2 (hne r)
    · intro r' he
      obtain ⟨-, hr⟩ := htrailing _ he
      exact ⟨f, by rw [hfront, SyntaxError.trailingCharacters.inj hr]⟩
  · rw [hfront, hs]
    refine ⟨?_, ?_, ?_⟩
    · intro e' he' hdeep
      obtain rfl := Except.error.inj he'
      exact (he.obstacle (Nat.zero_le _) hdeep).pointsAtObstacle
    · intro e'
      rw [Except.error.injEq, Except.error.injEq]
      refine ⟨?_, fun h => h.1⟩
      rintro rfl
      exact ⟨rfl, he.ne_trailingCharacters⟩
    · intro r hr
      exact absurd (Except.error.inj hr) (he.ne_trailingCharacters r)

/-- A dash that is no arrow stands where a connective is expected. -/
theorem missingConnective_of_lone_dash :
    Formula.parse "(p-" = .error (.missingConnective "-") ∧
      (SyntaxError.missingConnective "-").PointsAtObstacle "(p-" := by
  have htext : "(p-".toList = '(' :: Atom.name (.variable .p) :: ['-'] := by decide
  have hdash : ∀ (op : BinaryConnective) t, ['-'] ≠ op.token ++ t := by
    intro op t
    cases op <;> simp [BinaryConnective.token]
  have hstops : Reader.Stops 0 "(p-".toList (.missingConnective "-") := by
    rw [htext]
    exact .connective (Reader.Reads.atom (by decide) (.variable .p) ['-']) hdash
  have h := Formula.parse_of_stops hstops
  exact ⟨h, (syntax_errors_point_at_obstacle "(p-").1 _ h fun _ => SyntaxError.noConfusion⟩

end Sentential
