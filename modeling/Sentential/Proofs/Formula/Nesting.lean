/-
# The place at which the nesting becomes too deep

A text is refused as too deep right behind the token that opens one nesting too many.  In front of
that token stand only tokens that open nestings and left operands that are complete, each of which
starts again from the nesting around it.  `Deepens` says this of a text: it leads from one number
of open nestings to another.

* `Reader.stops_tooDeep_iff`: a reader stops like this behind a text that leads to the limit;
* `Formula.exists_inside`: a token that opens a nesting begins a part of the formula, and what
  stands in front of that part leads to it (`Formula.Inside.deepens`);
* `too_deep_at_first_nesting_beyond_limit`: what this means for whole texts, and where the place is
  in the text of a formula that is nested too deeply.
-/
import Mathlib.Logic.Function.Iterate
import Sentential.Proofs.Formula.Viability

namespace Sentential

/-- The tokens that open a nesting. -/
def Opening (c : Char) : Prop := c = '~' ∨ c = '('

namespace Reader

variable {d d' : Nat} {p u text : List Char} {c : Char} {e : SyntaxError}

/-! ## 1. Texts that lead deeper -/

/-- The text leads from `d` open nestings to `d'`. -/
inductive Deepens : Nat → Nat → List Char → Prop where
  | here {d : Nat} : Deepens d d []
  | deeper {d d' : Nat} {p u : List Char} (hp : Opens d p) (hu : Deepens (d + 1) d' u) :
    Deepens d d' (p ++ u)

theorem Opens.of_opening (hc : Opening c) : Opens d [c] := by
  rcases hc with rfl | rfl
  · exact .negation
  · exact .left

/-- Where a reader stops inside a nesting it stops outside. -/
theorem Opens.stops (hp : Opens d p) (hd : d < maxDepth) (h : Stops (d + 1) text e) :
    Stops d (p ++ text) e := by
  cases hp with
  | negation => exact .negation hd h
  | left => exact .left hd h
  | @right l op hl =>
    rw [List.cons_append, List.append_assoc]
    exact .right ⟨rfl, hl⟩ h

namespace Deepens

theorem le (h : Deepens d d' u) : d ≤ d' := by
  induction h with
  | here => exact Nat.le_refl _
  | deeper hp hu ih => omega

theorem continues (h : Deepens d d' u) (hs : Continues d' text) : Continues d (u ++ text) := by
  induction h with
  | here => exact hs
  | deeper hp hu ih =>
    rw [List.append_assoc]
    exact hp.continues (ih hs)

theorem blocked (h : Deepens d d' u) (hs : Blocked d' text) : Blocked d (u ++ text) := by
  induction h with
  | here => exact hs
  | deeper hp hu ih =>
    rw [List.append_assoc]
    exact hp.blocked (ih hs)

theorem stops (h : Deepens d d' u) (hd : d' ≤ maxDepth) (hs : Stops d' text e) :
    Stops d (u ++ text) e := by
  induction h with
  | here => exact hs
  | deeper hp hu ih =>
    rw [List.append_assoc]
    exact hp.stops (Nat.lt_of_lt_of_le hu.le hd) (ih hd hs)

end Deepens

/-- **A reader finds the nesting too deep behind a text that leads to the limit**, and behind the
token that follows there. -/
theorem stops_tooDeep_iff {r : String} (hd : d ≤ maxDepth) :
    Stops d text (.tooDeep r) ↔
      ∃ u c, text = u ++ c :: r.toList ∧ Opening c ∧ Deepens d maxDepth u := by
  constructor
  · intro h
    generalize he : SyntaxError.tooDeep r = e at h
    induction h with
    | @operand d text h => cases text <;> cases he
    | @tooDeep d c rest hle hc =>
      cases he
      obtain rfl := Nat.le_antisymm hd hle
      exact ⟨[], c, by rw [String.toList_ofList]; rfl, hc, .here⟩
    | @negation d text e hlt h ih =>
      obtain ⟨u, c, rfl, hc, hu⟩ := ih hlt he
      exact ⟨['~'] ++ u, c, rfl, hc, .deeper .negation hu⟩
    | @left d text e hlt h ih =>
      obtain ⟨u, c, rfl, hc, hu⟩ := ih hlt he
      exact ⟨['('] ++ u, c, rfl, hc, .deeper .left hu⟩
    | connective hl h => cases he
    | @right d text rest l op e hl h ih =>
      obtain ⟨u, c, rfl, hc, hu⟩ := ih hl.le_maxDepth he
      refine ⟨'(' :: (l.text ++ op.token) ++ u, c, ?_, hc, .deeper (.right op hl.2) hu⟩
      rw [hl.1]
      simp
    | closing hl hr h => cases he
  · rintro ⟨u, c, rfl, hc, hu⟩
    have hstop : Stops maxDepth (c :: r.toList) (.tooDeep (String.ofList r.toList)) :=
      .tooDeep (Nat.le_refl maxDepth) hc
    rw [String.ofList_toList] at hstop
    exact hu.stops (Nat.le_refl _) hstop

end Reader

/-! ## 2. Parts of a formula -/

namespace Formula

open Reader

/-- Inside a formula stands a part of it, with so many nestings open around it and with a text in
front of it. -/
inductive Inside : Formula → Nat → List Char → Formula → Prop where
  | here (f : Formula) : Inside f 0 [] f
  | operand {f part : Formula} {n : Nat} {pre : List Char} (h : Inside f n pre part) :
    Inside (negation f) (n + 1) ('~' :: pre) part
  | left (op : BinaryConnective) {l part : Formula} (r : Formula) {n : Nat} {pre : List Char}
    (h : Inside l n pre part) : Inside (binary op l r) (n + 1) ('(' :: pre) part
  | right (op : BinaryConnective) (l : Formula) {r part : Formula} {n : Nat} {pre : List Char}
    (h : Inside r n pre part) :
    Inside (binary op l r) (n + 1) ('(' :: (l.text ++ op.token) ++ pre) part

namespace Inside

variable {f g part : Formula} {n d : Nat} {pre : List Char}

theorem exists_text_eq (h : Inside f n pre part) : ∃ t, f.text = pre ++ (part.text ++ t) := by
  induction h with
  | here f => exact ⟨[], by simp⟩
  | operand h ih =>
    obtain ⟨t, ht⟩ := ih
    exact ⟨t, by rw [text, ht]; rfl⟩
  | left op r h ih =>
    obtain ⟨t, ht⟩ := ih
    exact ⟨t ++ (op.token ++ (r.text ++ [')'])), by simp [text, ht]⟩
  | right op l h ih =>
    obtain ⟨t, ht⟩ := ih
    exact ⟨t ++ [')'], by simp [text, ht]⟩

/-- The nestings around a part and those in it count for the whole. -/
theorem depth_le (h : Inside f n pre part) : n + part.depth ≤ f.depth := by
  induction h with
  | here f => exact Nat.le_of_eq (Nat.zero_add _)
  | operand h ih =>
    rw [depth]
    omega
  | left op r h ih | right op l h ih =>
    rw [depth]
    omega

/-- A text that a formula begins with, and that ends in front of a part of another formula, ends
in front of the end of the first one. -/
theorem continues_of_reads {t rest : List Char} (h : Inside g n pre part)
    (hf : Reads d (pre ++ t) f rest) : Continues d pre := by
  rcases List.append_eq_append_iff.mp hf.1.symm with ⟨w, rfl, -⟩ | ⟨w, hw, -⟩
  · -- otherwise the first formula ends where the second goes on
    obtain ⟨v, hv⟩ := h.exists_text_eq
    have hlonger : g.text ++ [] = f.text ++ (w ++ (part.text ++ v)) := by simp [hv]
    obtain ⟨-, hnil⟩ := text_append_inj hlonger
    simp [part.text_ne_nil] at hnil
  · exact ⟨w, f, by rw [hw, List.append_nil], hf.2⟩

/-- **What stands in front of a part leads as deep as the part is**, if it can be continued to a
formula that is not nested too deeply. -/
theorem deepens (h : Inside f n pre part) (hpre : Continues d pre) :
    Deepens d (d + n) pre ∧ d + n ≤ maxDepth := by
  induction h generalizing d with
  | here f =>
    obtain ⟨t, g, hg⟩ := hpre
    exact ⟨.here, hg.le_maxDepth⟩
  | @operand f part n pre h ih =>
    obtain ⟨t, g, hg⟩ := hpre
    obtain ⟨g', -, hg'⟩ := Reads.of_tilde hg
    obtain ⟨hdeep, hle⟩ := ih (h.continues_of_reads hg')
    rw [Nat.add_right_comm] at hdeep hle
    exact ⟨.deeper .negation hdeep, hle⟩
  | @left op l part r n pre h ih =>
    obtain ⟨t, g, hg⟩ := hpre
    obtain ⟨op', l', r', behind, -, hl', -⟩ := Reads.of_opening hg
    obtain ⟨hdeep, hle⟩ := ih (h.continues_of_reads hl')
    rw [Nat.add_right_comm] at hdeep hle
    exact ⟨.deeper .left hdeep, hle⟩
  | @right op l r part n pre h ih =>
    obtain ⟨t, g, hg⟩ := hpre
    obtain ⟨op', l', r', behind, -, hl', hr'⟩ := Reads.of_opening hg
    -- the left operand and the connective are the same in both formulas
    have htext : l.text ++ (op.token ++ (pre ++ t)) = l'.text ++ (op'.token ++ behind) := by
      simpa using hl'.1
    obtain ⟨rfl, hop⟩ := text_append_inj htext
    obtain ⟨rfl, rfl⟩ := BinaryConnective.token_append_inj hop
    obtain ⟨hdeep, hle⟩ := ih (h.continues_of_reads hr')
    rw [Nat.add_right_comm] at hdeep hle
    exact ⟨.deeper (.right op hl'.2) hdeep, hle⟩

end Inside

/-- A letter of two texts joined stands in the first or in the second. -/
theorem mem_append_split {s t u v : List Char} {c : Char} (h : s ++ t = u ++ c :: v) :
    (∃ w, s = u ++ c :: w) ∨ ∃ w, u = s ++ w ∧ t = w ++ c :: v := by
  rcases List.append_eq_append_iff.mp h with ⟨w, hu, ht⟩ | ⟨w, hs, hv⟩
  · exact .inr ⟨w, hu, ht⟩
  · cases w with
    | nil => exact .inr ⟨[], by rw [hs, List.append_nil, List.append_nil], hv.symm⟩
    | cons x w =>
      obtain ⟨rfl, -⟩ := List.cons.inj hv
      exact .inl ⟨w, hs⟩

theorem not_opening_of_mem_token {op : BinaryConnective} {c : Char} (h : c ∈ op.token) :
    ¬ Opening c := by
  rintro (rfl | rfl) <;> cases op <;> revert h <;> decide

/-- **A token that opens a nesting begins a part**, and no other letter of a formula opens one. -/
theorem exists_inside {f : Formula} {u v : List Char} {c : Char} (h : f.text = u ++ c :: v)
    (hc : Opening c) : ∃ n part, Inside f n u part := by
  induction f generalizing u v with
  | atom a =>
    cases u with
    | nil =>
      obtain ⟨rfl, -⟩ := List.cons.inj h
      rcases hc with hc | hc
      · exact absurd hc a.name_ne_tilde
      · exact absurd hc a.name_ne_opening
    | cons x u => simp [text] at h
  | negation f ih =>
    cases u with
    | nil => exact ⟨0, _, .here _⟩
    | cons x u =>
      obtain ⟨rfl, hf⟩ := List.cons.inj h
      obtain ⟨n, part, hpart⟩ := ih hf
      exact ⟨n + 1, part, hpart.operand⟩
  | binary op l r ihl ihr =>
    cases u with
    | nil => exact ⟨0, _, .here _⟩
    | cons x u =>
      have htext := text_binary_append op l r []
      rw [List.append_nil, h] at htext
      obtain ⟨rfl, hinner⟩ := List.cons.inj htext
      rcases mem_append_split hinner.symm with ⟨w, hl⟩ | ⟨w, rfl, hbehind⟩
      · obtain ⟨n, part, hpart⟩ := ihl hl
        exact ⟨n + 1, part, hpart.left op r⟩
      rcases mem_append_split hbehind with ⟨w', htoken⟩ | ⟨w', rfl, hright⟩
      · have hmem : c ∈ op.token := by simp [htoken]
        exact absurd hc (not_opening_of_mem_token hmem)
      rcases mem_append_split hright with ⟨w'', hr⟩ | ⟨w'', -, hclosing⟩
      · obtain ⟨n, part, hpart⟩ := ihr hr
        refine ⟨n + 1, part, ?_⟩
        rw [← List.append_assoc]
        exact hpart.right op l
      · -- the last token closes a nesting
        have hmem : c ∈ [')'] := by simp [hclosing]
        obtain rfl := List.mem_singleton.mp hmem
        rcases hc with hc | hc <;> cases hc

/-! ## 3. The first nesting beyond a limit -/

/-- The part is the first from the left that opens a nesting while `limit` of them are open. -/
structure FirstBeyond (limit : Nat) (f : Formula) (pre : List Char) (part : Formula) : Prop where
  inside : Inside f limit pre part
  opens : 0 < part.depth
  first {n : Nat} {pre' : List Char} {part' : Formula} (h : Inside f n pre' part')
    (hopens : 0 < part'.depth) (hn : limit ≤ n) : pre.length ≤ pre'.length

namespace FirstBeyond

variable {f part : Formula} {pre : List Char} {limit : Nat}

/-- With no nesting to spare the first token is the place. -/
theorem here {f : Formula} (h : 0 < f.depth) : FirstBeyond 0 f [] f :=
  ⟨.here f, h, fun _ _ _ => Nat.zero_le _⟩

theorem operand (h : FirstBeyond limit f pre part) :
    FirstBeyond (limit + 1) (negation f) ('~' :: pre) part := by
  refine ⟨h.inside.operand, h.opens, ?_⟩
  intro n pre' part' hin hopens hn
  cases hin with
  | here => exact absurd hn (Nat.not_succ_le_zero limit)
  | operand hin => exact Nat.succ_le_succ (h.first hin hopens (Nat.le_of_succ_le_succ hn))

/-- Whatever stands in the right operand comes later. -/
theorem left (op : BinaryConnective) (r : Formula) (h : FirstBeyond limit f pre part) :
    FirstBeyond (limit + 1) (binary op f r) ('(' :: pre) part := by
  refine ⟨h.inside.left op r, h.opens, ?_⟩
  intro n pre' part' hin hopens hn
  cases hin with
  | here => exact absurd hn (Nat.not_succ_le_zero limit)
  | left _ _ hin => exact Nat.succ_le_succ (h.first hin hopens (Nat.le_of_succ_le_succ hn))
  | right _ _ hin =>
    obtain ⟨t, ht⟩ := h.inside.exists_text_eq
    simp [ht]

/-- A left operand that is not nested too deeply has no such place. -/
theorem right (op : BinaryConnective) {l : Formula} (hl : l.depth ≤ limit)
    (h : FirstBeyond limit f pre part) :
    FirstBeyond (limit + 1) (binary op l f) ('(' :: (l.text ++ op.token) ++ pre) part := by
  refine ⟨h.inside.right op l, h.opens, ?_⟩
  intro n pre' part' hin hopens hn
  cases hin with
  | here => exact absurd hn (Nat.not_succ_le_zero limit)
  | left _ _ hin =>
    have hdepth := hin.depth_le
    omega
  | right _ _ hin =>
    have hlen := h.first hin hopens (Nat.le_of_succ_le_succ hn)
    simp
    omega

end FirstBeyond

/-- **A formula that is nested too deeply has a first place at which it is**, and what stands in
front of that place leads to the limit. -/
theorem exists_firstBeyond {f : Formula} {d limit : Nat} (hd : d + limit = maxDepth)
    (hdeep : limit < f.depth) :
    ∃ pre part, FirstBeyond limit f pre part ∧ Deepens d maxDepth pre := by
  induction f generalizing d limit with
  | atom a => exact absurd hdeep (Nat.not_lt_zero _)
  | negation f ih =>
    cases limit with
    | zero => exact ⟨[], _, .here hdeep, hd ▸ .here⟩
    | succ limit =>
      have hlimit : d + 1 + limit = maxDepth := by omega
      obtain ⟨pre, part, hfirst, hpre⟩ := ih hlimit (by rw [depth] at hdeep; omega)
      exact ⟨_, part, hfirst.operand, .deeper .negation hpre⟩
  | binary op l r ihl ihr =>
    cases limit with
    | zero => exact ⟨[], _, .here hdeep, hd ▸ .here⟩
    | succ limit =>
      have hlimit : d + 1 + limit = maxDepth := by omega
      by_cases hl : limit < l.depth
      · obtain ⟨pre, part, hfirst, hpre⟩ := ihl hlimit hl
        exact ⟨_, part, hfirst.left op r, .deeper .left hpre⟩
      · obtain ⟨pre, part, hfirst, hpre⟩ := ihr hlimit (by rw [depth] at hdeep; omega)
        exact ⟨_, part, hfirst.right op (by omega), .deeper (.right op (by omega)) hpre⟩

/-- A formula that has another one inside begins with a token that opens a nesting. -/
theorem exists_opening {f : Formula} (h : 0 < f.depth) :
    ∃ c s, f.text = c :: s ∧ Opening c := by
  cases f with
  | atom a => exact absurd h (Nat.lt_irrefl 0)
  | negation f => exact ⟨'~', _, rfl, .inl rfl⟩
  | binary op l r => exact ⟨'(', _, rfl, .inr rfl⟩

/-! ## 4. Texts that a formula of any depth begins with -/

/-- The text of some formula begins with the text, however deeply that formula is nested. -/
def Begun (s : List Char) : Prop :=
  ∃ (f : Formula) (t : List Char), f.text = s ++ t

end Formula

namespace Reader

open Formula

/-- What is missing behind a nesting is made up. -/
theorem Opens.begun {d : Nat} {p s : List Char} (hp : Opens d p) (h : Begun s) :
    Begun (p ++ s) := by
  obtain ⟨f, t, hf⟩ := h
  cases hp with
  | negation => exact ⟨.negation f, t, by rw [Formula.text, hf]; rfl⟩
  | left =>
    refine ⟨.binary .conjunction f (.atom (.constant true)), t ++ "&T)".toList, ?_⟩
    rw [Formula.text, hf]
    simp [BinaryConnective.token, Formula.text, Atom.name, Atom.constantName]
  | @right l op hl => exact ⟨.binary op l f, t ++ [')'], by simp [Formula.text, hf]⟩

theorem Deepens.begun {d d' : Nat} {u s : List Char} (h : Deepens d d' u) (hs : Begun s) :
    Begun (u ++ s) := by
  induction h with
  | here => exact hs
  | deeper hp hu ih =>
    rw [List.append_assoc]
    exact hp.begun ih

/-- One nesting too many is opened right in front of `rest`: what is in front of the token can be
continued to a formula that fits, and together with it to a formula, but to none that fits. -/
def OpensTooMany (d : Nat) (text rest : List Char) : Prop :=
  ∃ u c, text = u ++ c :: rest ∧ Opening c ∧ Continues d u ∧ Begun (u ++ [c]) ∧
    ¬ Continues d (u ++ [c])

/-- **A reader finds the nesting too deep where one nesting too many is opened.** -/
theorem stops_tooDeep_iff_opensTooMany {d : Nat} {text : List Char} {r : String}
    (hd : d ≤ maxDepth) : Stops d text (.tooDeep r) ↔ OpensTooMany d text r.toList := by
  rw [stops_tooDeep_iff hd]
  constructor
  · rintro ⟨u, c, rfl, hc, hu⟩
    have hcont := hu.continues (continues_nil (Nat.le_refl _))
    rw [List.append_nil] at hcont
    have hbegun : Begun [c] := by
      have h := (Opens.of_opening (d := 0) hc).begun (s := [])
        ⟨.atom (.constant true), _, rfl⟩
      rwa [List.append_nil] at h
    have hblocked : Blocked maxDepth [c] := fun t f rest =>
      (Stops.tooDeep (Nat.le_refl _) hc).not_reads f rest
    exact ⟨u, c, rfl, hc, hcont, hu.begun hbegun, (hu.blocked hblocked).not_continues⟩
  · rintro ⟨u, c, rfl, hc, hcont, ⟨f, t, hf⟩, hnot⟩
    rw [List.append_assoc] at hf
    obtain ⟨n, part, hpart⟩ := exists_inside hf hc
    obtain ⟨hdeep, hle⟩ := hpart.deepens hcont
    -- below the limit the token could be continued
    have hlimit : ¬ d + n < maxDepth := by
      intro hlt
      have h := (Opens.of_opening (d := d + n) hc).continues (continues_nil (d := d + n + 1) hlt)
      rw [List.append_nil] at h
      exact hnot (hdeep.continues h)
    rw [Nat.le_antisymm hle (Nat.le_of_not_lt hlimit)] at hdeep
    exact ⟨u, c, rfl, hc, hdeep⟩

end Reader

/-! ## 5. Whole texts -/

/-- The token in front of `r` opens one nesting too many: what is in front of it can be continued
to an accepted text, and together with it to the text of a formula, but to no accepted one. -/
def OpensTooMany (s r : String) : Prop :=
  ∃ (u : String) (c : Char), s = u ++ String.singleton c ++ r ∧ Opening c ∧ Viable u ∧
    (∃ (f : Formula) (t : String), toString f = u ++ String.singleton c ++ t) ∧
    ¬ Viable (u ++ String.singleton c)

theorem opensTooMany_iff {s r : String} :
    OpensTooMany s r ↔ Reader.OpensTooMany 0 s.toList r.toList := by
  constructor
  · rintro ⟨u, c, rfl, hc, hu, ⟨f, t, hf⟩, hnot⟩
    rw [viable_iff] at hu hnot
    rw [String.toList_append, String.toList_singleton] at hnot
    refine ⟨u.toList, c, by simp, hc, hu, ⟨f, t.toList, ?_⟩, hnot⟩
    rw [← Formula.toList_toString, hf]
    simp
  · rintro ⟨u, c, hs, hc, hu, ⟨f, t, hf⟩, hnot⟩
    have hpre : (String.ofList u ++ String.singleton c).toList = u ++ [c] := by simp
    refine ⟨String.ofList u, c, ?_, hc, ?_, ⟨f, String.ofList t, ?_⟩, ?_⟩
    · rw [← String.toList_inj, String.toList_append, hpre, hs]
      simp
    · rwa [viable_iff, String.toList_ofList]
    · rw [← String.toList_inj, String.toList_append, hpre, Formula.toList_toString, hf,
        String.toList_ofList]
    · rwa [viable_iff, hpre]

namespace Formula

theorem parse_eq_tooDeep_iff {s r : String} :
    parse s = .error (.tooDeep r) ↔ parseFront s = .error (.tooDeep r) := by
  rcases read_cases s with ⟨f, t, -, hfront, hs⟩ | ⟨e, -, hfront, hs⟩
  · rw [hfront, hs]
    split
    · exact ⟨(fun h => nomatch h), (fun h => nomatch h)⟩
    · exact ⟨(fun h => nomatch h), (fun h => nomatch h)⟩
  · rw [hfront, hs, Except.error.injEq, Except.error.injEq]

end Formula

/-- **The nesting is too deep exactly at the first token that opens one nesting too many.**  No
other error hides that, and none is hidden by it.  A formula that is nested too deeply is refused,
whatever follows it, behind the first token from the left that opens a nesting while the limit is
reached. -/
theorem too_deep_at_first_nesting_beyond_limit :
    (∀ s r : String, (Formula.parse s = .error (.tooDeep r) ↔ OpensTooMany s r) ∧
      (Formula.parseFront s = .error (.tooDeep r) ↔ OpensTooMany s r)) ∧
    ∀ (f : Formula) (t : String), maxDepth < f.depth →
      ∃ pre part r, f.FirstBeyond maxDepth pre part ∧
        r = String.ofList ((toString f ++ t).toList.drop (pre.length + 1)) ∧
        Formula.parse (toString f ++ t) = .error (.tooDeep r) ∧
        Formula.parseFront (toString f ++ t) = .error (.tooDeep r) := by
  refine ⟨?_, ?_⟩
  · intro s r
    have hfront : Formula.parseFront s = .error (.tooDeep r) ↔ OpensTooMany s r := by
      rw [Formula.parseFront_eq_error_iff, opensTooMany_iff,
        Reader.stops_tooDeep_iff_opensTooMany (Nat.zero_le _)]
    exact ⟨Formula.parse_eq_tooDeep_iff.trans hfront, hfront⟩
  · intro f t hdeep
    obtain ⟨pre, part, hfirst, hpre⟩ :=
      Formula.exists_firstBeyond (Nat.zero_add maxDepth) hdeep
    obtain ⟨c, s, hpart, hc⟩ := Formula.exists_opening hfirst.opens
    obtain ⟨v, hf⟩ := hfirst.inside.exists_text_eq
    have htext : (toString f ++ t).toList = pre ++ c :: (s ++ (v ++ t.toList)) := by
      rw [String.toList_append, Formula.toList_toString, hf, hpart]
      simp
    have hrest : (toString f ++ t).toList.drop (pre.length + 1) = s ++ (v ++ t.toList) := by
      rw [htext]
      simp
    refine ⟨pre, part, _, hfirst, rfl, ?_⟩
    rw [Formula.parse_eq_tooDeep_iff, and_self, Formula.parseFront_eq_error_iff,
      Reader.stops_tooDeep_iff (Nat.zero_le _)]
    exact ⟨pre, c, by rw [String.toList_ofList, hrest, htext], hc, hpre⟩

/-- What stands in front of a part of a chain of negations. -/
theorem Formula.Inside.length_of_negations {f part : Formula} {m n : Nat} {pre : List Char}
    (h : (Formula.negation^[m] f).Inside n pre part) (hn : n ≤ m) : pre.length = n := by
  induction n generalizing m pre with
  | zero =>
    generalize Formula.negation^[m] f = g at h
    cases h
    rfl
  | succ n ih =>
    cases m with
    | zero => exact absurd hn (Nat.not_succ_le_zero n)
    | succ m =>
      rw [Function.iterate_succ_apply'] at h
      cases h with
      | operand h => rw [List.length_cons, ih h (Nat.le_of_succ_le_succ hn)]

/-- The parenthesis around a right operand counts too, so the last of 256 negations in front of it
is one too many. -/
theorem tooDeep_of_right_operand :
    Formula.parse (toString (Formula.binary .conjunction (.atom (.variable .p))
      (Formula.negation^[256] (.atom (.variable .q)))) ++ "x") = .error (.tooDeep "q)x") := by
  obtain ⟨pre, part, r, hfirst, hr, hparse, -⟩ := too_deep_at_first_nesting_beyond_limit.2
    (.binary .conjunction (.atom (.variable .p)) (Formula.negation^[256] (.atom (.variable .q))))
    "x" (by decide +kernel)
  have hlen : pre.length = 258 := by
    cases hfirst.inside with
    | left _ _ h => cases h
    | right _ _ h =>
      have hnegations := h.length_of_negations (by decide)
      simp [hnegations, Formula.text, BinaryConnective.token]
  have hrest : r = "q)x" := by
    rw [hr, hlen, String.toList_append, Formula.toList_toString]
    decide +kernel
  rw [hparse, hrest]

end Sentential
