/-
# Nestings are closed as often as they are opened

The number of open nestings is carried through a reader, and a choice between two readers puts the
text back but not the number.  So a nesting that one of them leaves open would count against every
later one.  Where a reader ends nothing is left open (`Reader.formula_meets`); here the same is
followed through everything in between.

A `Run` is a reader at work: its outcome, and every stream that it has on the way.  There is one
for each reader, put together in the same way, and its outcome is the reader's
(`Run.outcome_formula`).  Reading a token, an atom or the characters of a connective takes one step;
everything else is made of the runs of its parts, so the run of a formula has those of the formulas
inside it in it (`Run.streams_of_calls`).  `Run.Balanced` says what holds of such a run, with one
rule for each way of putting readers together.

* `Run.Balanced.enclosed`: the only rule by which the number changes on the way;
* `Run.formula_balanced`: the formula reader, by induction on the length of the text;
* `nesting_counter_is_balanced`: each of the readers that call each other.
-/
import Sentential.Proofs.Formula.Reading

namespace Sentential
namespace Reader

/-! ## 1. Streams -/

/-- What a reader has before it: the text that is left and the number of open nestings. -/
structure Stream where
  rest : List Char
  depth : Nat

/-- A stream that a reader may have which is given `text` with `d` nestings open. -/
structure Stream.Within (s : Stream) (text : List Char) (d : Nat) : Prop where
  suffix : s.rest <:+ text
  le_depth : d ≤ s.depth
  depth_le : s.depth ≤ maxDepth

theorem Stream.Within.widen {s : Stream} {text rest : List Char} {d d' : Nat}
    (h : s.Within rest d') (hrest : rest <:+ text) (hd : d ≤ d') : s.Within text d :=
  ⟨h.suffix.trans hrest, Nat.le_trans hd h.le_depth, h.depth_le⟩

namespace Outcome

variable {α β : Type} {n : Nat}

/-- The stream as the outcome leaves it. -/
def stream (o : Outcome α n) : Stream := ⟨o.rest, o.depth⟩

theorem stream_map (f : α → β) (o : Outcome α n) : (o.map f).stream = o.stream := by
  cases o <;> rfl

theorem stream_committed (o : Outcome α n) : o.committed.stream = o.stream := by
  cases o <;> rfl

theorem stream_expecting (error : SyntaxError) (o : Outcome α n) :
    (o.expecting error).stream = o.stream := by
  cases o <;> rfl

theorem stream_mapDepth (f : Nat → Nat) (o : Outcome α n) :
    (o.mapDepth f).stream = ⟨o.rest, f o.depth⟩ := by
  cases o <;> rfl

/-- The text is put back, or left where it is. -/
theorem stream_refine (text : List Char) (f : α → Option β) (o : Outcome α n) :
    (o.refine text f).stream = o.stream ∨ (o.refine text f).stream = ⟨text, o.depth⟩ := by
  cases o with
  | ok a rest depth shorter =>
    rw [refine]
    cases f a with
    | some b => exact .inl rfl
    | none => exact .inr rfl
  | noMatch e rest depth => exact .inl rfl
  | failure e rest depth => exact .inl rfl

theorem stream_andThen_ok (a : α) (rest : List Char) (depth : Nat) (h : rest.length < n)
    (next : α → (rest : List Char) → rest.length < n → Nat → Outcome β rest.length) :
    ((ok a rest depth h).andThen next).stream = (next a rest h depth).stream := by
  rw [andThen]
  cases next a rest h depth <;> rfl

end Outcome

/-- What happens to a stream at a time. -/
inductive Step : Stream → Stream → Prop where
  /-- Some of the text is read, or the text is put back. -/
  | text (rest rest' : List Char) (depth : Nat) : Step ⟨rest, depth⟩ ⟨rest', depth⟩
  | opens (rest : List Char) (depth : Nat) : Step ⟨rest, depth⟩ ⟨rest, depth + 1⟩
  | closes (rest : List Char) (depth : Nat) : Step ⟨rest, depth + 1⟩ ⟨rest, depth⟩

/-- The streams from one to another, step by step. -/
inductive Walk : Stream → List Stream → Stream → Prop where
  | stop (s : Stream) : Walk s [s] s
  | step {s t u : Stream} {streams : List Stream} (h : Step s t) (w : Walk t streams u) :
    Walk s (s :: streams) u

namespace Walk

variable {s t u v : Stream} {first second : List Stream}

theorem append (w : Walk s first t) (h : Step t u) (w' : Walk u second v) :
    Walk s (first ++ second) v := by
  induction w with
  | stop s => exact .step h w'
  | step h' _ ih => exact .step h' (ih h)

theorem last_mem (w : Walk s first t) : t ∈ first := by
  induction w with
  | stop s => exact List.mem_singleton_self s
  | step h w ih => exact List.mem_cons_of_mem _ ih

end Walk

/-! ## 2. Readers at work -/

/-- A reader at work: its outcome, and the streams that it has on the way, the first one first. -/
structure Run (α : Type) (n : Nat) where
  outcome : Outcome α n
  streams : List Stream

namespace Run

variable {α β : Type} {n : Nat}

/-- A reader that goes from one stream to another at once. -/
def once (text : List Char) (depth : Nat) (o : Outcome α n) : Run α n :=
  ⟨o, [⟨text, depth⟩, o.stream]⟩

/-- The run with its value changed.  The streams are the same. -/
def map (f : α → β) (r : Run α n) : Run β n :=
  ⟨r.outcome.map f, r.streams⟩

/-- The run behind which no other reader is tried.  The streams are the same. -/
def committed (r : Run α n) : Run α n :=
  ⟨r.outcome.committed, r.streams⟩

/-- The run with another error.  The streams are the same. -/
def expecting (error : SyntaxError) (r : Run α n) : Run α n :=
  ⟨r.outcome.expecting error, r.streams⟩

/-- A value that is not accepted puts the text back. -/
def refine (text : List Char) (f : α → Option β) (r : Run α n) : Run β n :=
  ⟨r.outcome.refine text f, r.streams ++ [(r.outcome.refine text f).stream]⟩

/-- The second run starts from what the first one leaves, unless that has failed.  Its streams come
behind those of the first one. -/
def andThen (r : Run α n)
    (next : α → (rest : List Char) → rest.length < n → Nat → Run β rest.length) : Run β n where
  outcome := r.outcome.andThen fun a rest h depth => (next a rest h depth).outcome
  streams :=
    match r.outcome with
    | .ok a rest depth h => r.streams ++ (next a rest h depth).streams
    | .noMatch _ _ _ | .failure _ _ _ => r.streams

/-- If the first run does not match, the other one starts with as many nestings open as the first
one leaves, and its streams come behind those of the first one. -/
def orElse (r : Run α n) (other : Nat → Run α n) : Run α n where
  outcome := r.outcome.orElse fun depth => (other depth).outcome
  streams :=
    match r.outcome with
    | .noMatch _ _ depth => r.streams ++ (other depth).streams
    | .ok _ _ _ _ | .failure _ _ _ => r.streams

/-- A nesting is opened in front of the run and closed behind it. -/
def enclosed (text : List Char) (depth : Nat) (r : Run α n) : Run α n where
  outcome := r.outcome.mapDepth (· - 1)
  streams := ⟨text, depth⟩ :: (r.streams ++ [(r.outcome.mapDepth (· - 1)).stream])

/-- The run of the body with one more nesting open.  At the limit there is one stream only, since
nothing is read. -/
def nested (text : List Char) (depth : Nat) (body : Nat → Run α n) : Run α n where
  outcome := Reader.nested text depth fun depth => (body depth).outcome
  streams :=
    if maxDepth ≤ depth then [⟨text, depth⟩]
    else (enclosed text depth (body (depth + 1))).streams

/-- The first `k + 1` characters are read at once. -/
def take (k : Nat) (text : List Char) (depth : Nat) : Run (List Char) text.length :=
  once text depth (Reader.take k text depth)

/-- The character `c` is read at once. -/
def token (c : Char) (text : List Char) (depth : Nat) : Run Unit text.length :=
  once text depth (Reader.token c text depth)

/-- An atom is read at once. -/
def atom (text : List Char) (depth : Nat) : Run Formula text.length :=
  once text depth (Reader.atom text depth)

/-- The longer tokens are tried first, and then the text is put back. -/
def connective (text : List Char) (depth : Nat) : Run Connective text.length :=
  ((take 1 text depth).refine text (Connective.ofTokenOfLength? 2)).orElse fun depth =>
    (take 0 text depth).refine text (Connective.ofTokenOfLength? 1)

/-- The text is put back behind a tilde, which is no binary connective. -/
def binaryConnective (text : List Char) (depth : Nat) : Run BinaryConnective text.length :=
  ((connective text depth).refine text Connective.binary?).expecting
    (.missingConnective (String.ofList text))

/-- The parenthesis that ends a formula. -/
def closing (text : List Char) (depth : Nat) : Run Unit text.length :=
  (token ')' text depth).expecting (.unclosedParenthesis (String.ofList text))

/-- What is read behind a tilde, one nesting deeper. -/
def operand (text : List Char) (depth : Nat) (inner : Nat → Run Formula text.length) :
    Run Formula text.length :=
  nested text depth fun depth => (inner depth).map .negation

/-- What is read behind a parenthesis, one nesting deeper: a formula, a connective, a formula and
the other parenthesis. -/
def operands {n : Nat} (text : List Char) (h : text.length < n) (depth : Nat)
    (inner : (rest : List Char) → rest.length < n → Nat → Run Formula rest.length) :
    Run Formula text.length :=
  nested text depth fun depth =>
    (inner text h depth).andThen fun left rest₁ h₁ depth =>
    (binaryConnective rest₁ depth).andThen fun op rest₂ h₂ depth =>
    (inner rest₂ (by omega) depth).andThen fun right rest₃ _ depth =>
    (closing rest₃ depth).map fun _ => .binary op left right

/-- The runs for the formulas inside `text`. -/
abbrev Inner (text : List Char) : Type :=
  (rest : List Char) → rest.length < text.length → Nat → Run Formula rest.length

/-- A tilde and what is behind it. -/
def negation (text : List Char) (depth : Nat) (inner : Inner text) : Run Formula text.length :=
  (token '~' text depth).andThen fun _ rest h depth =>
    (operand rest depth (inner rest h)).committed

/-- A parenthesis and what is behind it. -/
def parenthesised (text : List Char) (depth : Nat) (inner : Inner text) :
    Run Formula text.length :=
  (token '(' text depth).andThen fun _ rest h depth =>
    (operands rest h depth inner).committed

/-- An atom is tried first, then a negation, then a parenthesis.  The run of each that does not
match comes first. -/
def formula (text : List Char) (depth : Nat) : Run Formula text.length :=
  (atom text depth).orElse fun depth =>
  (negation text depth fun rest _ depth => formula rest depth).orElse fun depth =>
  parenthesised text depth fun rest _ depth => formula rest depth
termination_by text.length

theorem outcome_negation (text : List Char) (depth : Nat) (inner : Inner text) :
    (negation text depth inner).outcome =
      Reader.negation text depth fun rest h depth => (inner rest h depth).outcome := rfl

theorem outcome_parenthesised (text : List Char) (depth : Nat) (inner : Inner text) :
    (parenthesised text depth inner).outcome =
      Reader.parenthesised text depth fun rest h depth => (inner rest h depth).outcome := rfl

theorem outcome_operand (text : List Char) (depth : Nat) (inner : Nat → Run Formula text.length) :
    (operand text depth inner).outcome =
      Reader.nested text depth fun depth => (inner depth).outcome.map .negation := rfl

theorem outcome_operands {n : Nat} (text : List Char) (h : text.length < n) (depth : Nat)
    (inner : (rest : List Char) → rest.length < n → Nat → Run Formula rest.length) :
    (operands text h depth inner).outcome =
      Reader.nested text depth fun depth =>
        (inner text h depth).outcome.andThen fun left rest₁ h₁ depth =>
        (Reader.binaryConnective rest₁ depth).andThen fun op rest₂ h₂ depth =>
        (inner rest₂ (by omega) depth).outcome.andThen fun right rest₃ _ depth =>
        (Reader.closing rest₃ depth).map fun _ => .binary op left right := rfl

/-- **The run of the formula reader ends as the reader does.** -/
theorem outcome_formula (text : List Char) (depth : Nat) :
    (formula text depth).outcome = Reader.formula text depth := by
  have hinner : (fun rest _ depth => (formula rest depth).outcome : Reader.Inner text) =
      fun rest _ depth => Reader.formula rest depth := by
    funext rest h depth
    exact outcome_formula rest depth
  rw [formula, Reader.formula]
  show (Reader.atom text depth).orElse _ = _
  congr 1
  funext depth
  show (negation text depth _).outcome.orElse _ = _
  rw [outcome_negation, hinner]
  congr 1
  funext depth
  rw [outcome_parenthesised, hinner]
termination_by text.length

/-! ## 3. Balanced runs -/

variable {d : Nat} {text : List Char}

/-- The run goes step by step from `text`, with `d` nestings open, to what its outcome leaves, with
as many open.  On the way it closes none that it has not opened, and opens none beyond the limit. -/
structure Balanced (text : List Char) (d : Nat) (r : Run α n) : Prop where
  walk : Walk ⟨text, d⟩ r.streams r.outcome.stream
  depth_eq : r.outcome.depth = d
  within : ∀ s ∈ r.streams, s.Within text d

namespace Balanced

variable {γ : Type} {m k : Nat}

theorem stream_eq {r : Run α n} (h : r.Balanced text d) :
    r.outcome.stream = ⟨r.outcome.rest, d⟩ :=
  congrArg (Stream.mk r.outcome.rest) h.depth_eq

theorem rest_suffix {r : Run α n} (h : r.Balanced text d) : r.outcome.rest <:+ text :=
  (h.within _ h.walk.last_mem).suffix

/-- Nothing counts but the streams and what the outcome leaves. -/
theorem of_stream_eq {r : Run α n} {r' : Run β m} (h : r.Balanced text d)
    (hstreams : r'.streams = r.streams) (hlast : r'.outcome.stream = r.outcome.stream) :
    r'.Balanced text d := by
  refine ⟨?_, (congrArg Stream.depth hlast).trans h.depth_eq, ?_⟩
  · rw [hstreams, hlast]
    exact h.walk
  · rw [hstreams]
    exact h.within

theorem map {f : α → β} {r : Run α n} (h : r.Balanced text d) : (r.map f).Balanced text d :=
  h.of_stream_eq rfl (Outcome.stream_map f r.outcome)

theorem committed {r : Run α n} (h : r.Balanced text d) : r.committed.Balanced text d :=
  h.of_stream_eq rfl (Outcome.stream_committed r.outcome)

theorem expecting {error : SyntaxError} {r : Run α n} (h : r.Balanced text d) :
    (r.expecting error).Balanced text d :=
  h.of_stream_eq rfl (Outcome.stream_expecting error r.outcome)

/-- A run that stays where it is. -/
theorem still {o : Outcome α n} (hd : d ≤ maxDepth) (h : o.stream = ⟨text, d⟩) :
    (⟨o, [o.stream]⟩ : Run α n).Balanced text d := by
  refine ⟨?_, congrArg Stream.depth h, ?_⟩
  · rw [h]
    exact .stop _
  · intro s hs
    obtain rfl := List.mem_singleton.mp hs
    rw [h]
    exact ⟨List.suffix_refl text, Nat.le_refl d, hd⟩

/-- One run behind another, from any place of the text: it does not matter that the text is put
back in between, because as many nestings are open. -/
theorem followed {r : Run α n} {r' : Run β m} {whole : Run γ k} {rest : List Char}
    (h : r.Balanced text d) (hrest : rest <:+ text) (h' : r'.Balanced rest d)
    (hstreams : whole.streams = r.streams ++ r'.streams)
    (hlast : whole.outcome.stream = r'.outcome.stream) : whole.Balanced text d := by
  refine ⟨?_, (congrArg Stream.depth hlast).trans h'.depth_eq, ?_⟩
  · have hstep : Step r.outcome.stream ⟨rest, d⟩ := by
      rw [h.stream_eq]
      exact .text r.outcome.rest rest d
    rw [hstreams, hlast]
    exact h.walk.append hstep h'.walk
  · rw [hstreams]
    intro s hs
    rcases List.mem_append.mp hs with hs | hs
    · exact h.within s hs
    · exact (h'.within s hs).widen hrest (Nat.le_refl d)

theorem once {o : Outcome α n} (hd : d ≤ maxDepth) (hdepth : o.depth = d)
    (hrest : o.rest <:+ text) : (Run.once text d o).Balanced text d := by
  have hfirst : (⟨.noMatch .emptyInput text d, [⟨text, d⟩]⟩ : Run α n).Balanced text d :=
    still hd rfl
  exact hfirst.followed hrest (still hd (congrArg (Stream.mk o.rest) hdepth)) rfl rfl

theorem refine {f : α → Option β} {r : Run α n} (hd : d ≤ maxDepth) (h : r.Balanced text d) :
    (r.refine text f).Balanced text d := by
  rcases Outcome.stream_refine text f r.outcome with hs | hs
  · exact h.followed h.rest_suffix (still hd (hs.trans h.stream_eq)) rfl rfl
  · rw [h.depth_eq] at hs
    exact h.followed (List.suffix_refl text) (still hd hs) rfl rfl

theorem andThen {r : Run α n}
    {next : α → (rest : List Char) → rest.length < n → Nat → Run β rest.length}
    (h : r.Balanced text d) (hnext : ∀ a rest hr, (next a rest hr d).Balanced rest d) :
    (r.andThen next).Balanced text d := by
  obtain ⟨o, streams⟩ := r
  cases o with
  | ok a rest depth shorter =>
    obtain rfl : depth = d := h.depth_eq
    exact h.followed h.rest_suffix (hnext a rest shorter) rfl
      (Outcome.stream_andThen_ok a rest depth shorter fun a rest h depth =>
        (next a rest h depth).outcome)
  | noMatch e rest depth => exact h.of_stream_eq rfl rfl
  | failure e rest depth => exact h.of_stream_eq rfl rfl

theorem orElse {r : Run α n} {other : Nat → Run α n} (h : r.Balanced text d)
    (hother : (other d).Balanced text d) : (r.orElse other).Balanced text d := by
  obtain ⟨o, streams⟩ := r
  cases o with
  | ok a rest depth shorter => exact h
  | noMatch e rest depth =>
    obtain rfl : depth = d := h.depth_eq
    exact h.followed (List.suffix_refl text) hother rfl rfl
  | failure e rest depth => exact h

/-- **A nesting that is opened is closed**, however the run inside ends. -/
theorem enclosed {r : Run α n} (hd : d ≤ maxDepth) (h : r.Balanced text (d + 1)) :
    (Run.enclosed text d r).Balanced text d := by
  have hlast : (r.outcome.mapDepth (· - 1)).stream = ⟨r.outcome.rest, d⟩ := by
    rw [Outcome.stream_mapDepth, h.depth_eq, Nat.add_sub_cancel]
  have hstreams : (Run.enclosed text d r).streams =
      ⟨text, d⟩ :: (r.streams ++ [⟨r.outcome.rest, d⟩]) := by
    rw [Run.enclosed, hlast]
  have hopens : Step ⟨text, d⟩ ⟨text, d + 1⟩ := .opens text d
  have hcloses : Step r.outcome.stream ⟨r.outcome.rest, d⟩ := by
    rw [h.stream_eq]
    exact .closes r.outcome.rest d
  refine ⟨?_, congrArg Stream.depth hlast, ?_⟩
  · rw [hstreams]
    exact .step hopens (h.walk.append hcloses (hlast ▸ .stop _))
  · rw [hstreams]
    intro s hs
    rcases List.mem_cons.mp hs with rfl | hs
    · exact ⟨List.suffix_refl text, Nat.le_refl d, hd⟩
    rcases List.mem_append.mp hs with hs | hs
    · exact (h.within s hs).widen (List.suffix_refl text) (Nat.le_succ d)
    · obtain rfl := List.mem_singleton.mp hs
      exact ⟨h.rest_suffix, Nat.le_refl d, hd⟩

/-- At the limit no nesting is opened. -/
theorem nested {body : Nat → Run α n} (hd : d ≤ maxDepth)
    (hbody : d < maxDepth → (body (d + 1)).Balanced text (d + 1)) :
    (Run.nested text d body).Balanced text d := by
  by_cases hlimit : maxDepth ≤ d
  · have hrefused : (⟨.failure (.tooDeep (String.ofList text)) text d, [⟨text, d⟩]⟩ :
        Run α n).Balanced text d := still hd rfl
    refine hrefused.of_stream_eq (if_pos hlimit) ?_
    rw [Run.nested, Reader.nested, if_pos hlimit]
  · refine (enclosed hd (hbody (Nat.lt_of_not_le hlimit))).of_stream_eq (if_neg hlimit) ?_
    rw [Run.nested, Reader.nested, if_neg hlimit, Run.enclosed]

end Balanced

/-! ## 4. The readers -/

theorem take_balanced (k : Nat) (text : List Char) (hd : d ≤ maxDepth) :
    (take k text d).Balanced text d := by
  have hread : (Reader.take k text d).depth = d ∧ (Reader.take k text d).rest <:+ text := by
    unfold Reader.take
    split
    · exact ⟨rfl, List.drop_suffix (k + 1) text⟩
    · exact ⟨rfl, List.suffix_refl text⟩
  exact .once hd hread.1 hread.2

theorem token_balanced (c : Char) (text : List Char) (hd : d ≤ maxDepth) :
    (token c text d).Balanced text d := by
  have hread : (Reader.token c text d).depth = d ∧ (Reader.token c text d).rest <:+ text := by
    cases text with
    | nil => exact ⟨rfl, List.suffix_refl []⟩
    | cons x rest =>
      rw [Reader.token]
      split
      · exact ⟨rfl, List.suffix_cons x rest⟩
      · exact ⟨rfl, List.suffix_refl (x :: rest)⟩
  exact .once hd hread.1 hread.2

theorem atom_balanced (text : List Char) (hd : d ≤ maxDepth) :
    (atom text d).Balanced text d := by
  have hread : (Reader.atom text d).depth = d ∧ (Reader.atom text d).rest <:+ text := by
    cases text with
    | nil => exact ⟨rfl, List.suffix_refl []⟩
    | cons x rest =>
      rw [Reader.atom]
      split
      · exact ⟨rfl, List.suffix_cons x rest⟩
      · exact ⟨rfl, List.suffix_refl (x :: rest)⟩
  exact .once hd hread.1 hread.2

theorem connective_balanced (text : List Char) (hd : d ≤ maxDepth) :
    (connective text d).Balanced text d :=
  ((take_balanced 1 text hd).refine hd).orElse ((take_balanced 0 text hd).refine hd)

theorem binaryConnective_balanced (text : List Char) (hd : d ≤ maxDepth) :
    (binaryConnective text d).Balanced text d :=
  ((connective_balanced text hd).refine hd).expecting

theorem closing_balanced (text : List Char) (hd : d ≤ maxDepth) :
    (closing text d).Balanced text d :=
  (token_balanced ')' text hd).expecting

theorem operand_balanced {inner : Nat → Run Formula text.length} (hd : d ≤ maxDepth)
    (hinner : d < maxDepth → (inner (d + 1)).Balanced text (d + 1)) :
    (operand text d inner).Balanced text d :=
  .nested hd fun hlt => (hinner hlt).map

theorem operands_balanced {h : text.length < n}
    {inner : (rest : List Char) → rest.length < n → Nat → Run Formula rest.length}
    (hd : d ≤ maxDepth)
    (hinner : ∀ rest h, d < maxDepth → (inner rest h (d + 1)).Balanced rest (d + 1)) :
    (operands text h d inner).Balanced text d := by
  refine .nested hd fun hlt => ?_
  refine (hinner text h hlt).andThen fun left rest₁ h₁ => ?_
  refine (binaryConnective_balanced rest₁ hlt).andThen fun op rest₂ h₂ => ?_
  refine (hinner rest₂ _ hlt).andThen fun right rest₃ h₃ => ?_
  exact (closing_balanced rest₃ hlt).map

theorem negation_balanced {inner : Inner text} (hd : d ≤ maxDepth)
    (hinner : ∀ rest h, d < maxDepth → (inner rest h (d + 1)).Balanced rest (d + 1)) :
    (negation text d inner).Balanced text d := by
  refine (token_balanced '~' text hd).andThen fun _ rest h => ?_
  exact (operand_balanced hd (hinner rest h)).committed

theorem parenthesised_balanced {inner : Inner text} (hd : d ≤ maxDepth)
    (hinner : ∀ rest h, d < maxDepth → (inner rest h (d + 1)).Balanced rest (d + 1)) :
    (parenthesised text d inner).Balanced text d := by
  refine (token_balanced '(' text hd).andThen fun _ rest h => ?_
  exact (operands_balanced hd hinner).committed

/-- **The formula reader closes what it opens**, and each of the readers that it tries starts with
as many nestings open. -/
theorem formula_balanced (text : List Char) {d : Nat} (hd : d ≤ maxDepth) :
    (formula text d).Balanced text d := by
  have hinner : ∀ rest, rest.length < text.length → d < maxDepth →
      (formula rest (d + 1)).Balanced rest (d + 1) :=
    fun rest _ hlt => formula_balanced rest hlt
  rw [formula]
  refine (atom_balanced text hd).orElse ?_
  refine (negation_balanced hd hinner).orElse ?_
  exact parenthesised_balanced hd hinner
termination_by text.length

/-- The atom and the tilde are looked for with no nesting open, the letter with one. -/
example : (formula ['~', 'p'] 0).streams =
    [⟨['~', 'p'], 0⟩, ⟨['~', 'p'], 0⟩, ⟨['~', 'p'], 0⟩, ⟨['p'], 0⟩, ⟨['p'], 0⟩, ⟨['p'], 1⟩,
      ⟨[], 1⟩, ⟨[], 0⟩] := by
  cbv

end Run

/-! ## 5. What the readers give back -/

/-- A reader that is given `text` with `d` nestings open, and whose run is `r`, ends with as many
open and leaves an end of the text, a shorter one if it has read something.  In the run no stream
is skipped, and every one of them has an end of the text and a number of open nestings between `d`
and the limit.  That the run is no shorter than it should be is not said here but by what `r` is: it
has the whole run of every formula that is read inside (`Run.streams_of_calls`). -/
structure Outcome.Restores {α : Type} (text : List Char) (d : Nat) (o : Outcome α text.length)
    (r : Run α text.length) : Prop where
  outcome_eq : r.outcome = o
  depth_eq : o.depth = d
  rest_suffix : o.rest <:+ text
  shorter : ∀ a rest depth h, o = .ok a rest depth h → ∃ pre, pre ≠ [] ∧ text = pre ++ rest
  walk : Walk ⟨text, d⟩ r.streams o.stream
  within : ∀ s ∈ r.streams, s.Within text d

theorem Run.Balanced.restores {α : Type} {text : List Char} {d : Nat}
    {o : Outcome α text.length} {r : Run α text.length} (h : r.Balanced text d)
    (ho : r.outcome = o) : o.Restores text d r := by
  subst ho
  refine ⟨rfl, h.depth_eq, h.rest_suffix, ?_, h.walk, h.within⟩
  intro a rest depth hlt heq
  have hsuffix := h.rest_suffix
  rw [heq] at hsuffix
  obtain ⟨pre, hpre⟩ := hsuffix
  refine ⟨pre, ?_, hpre.symm⟩
  rintro rfl
  rw [← hpre] at hlt
  exact Nat.lt_irrefl _ hlt

/-- **The count of open nestings is balanced on every way through the readers**: for the reader of
formulas, for those of negations and of parentheses, and for what either of these reads one nesting
deeper. -/
theorem nesting_counter_is_balanced (text : List Char) (d : Nat) (hd : d ≤ maxDepth) :
    (formula text d).Restores text d (Run.formula text d) ∧
    (negation text d fun rest _ depth => formula rest depth).Restores text d
      (Run.negation text d fun rest _ depth => Run.formula rest depth) ∧
    (parenthesised text d fun rest _ depth => formula rest depth).Restores text d
      (Run.parenthesised text d fun rest _ depth => Run.formula rest depth) ∧
    (nested text d fun depth => (formula text depth).map .negation).Restores text d
      (Run.operand text d (Run.formula text)) ∧
    (nested text d fun depth =>
      (formula text depth).andThen fun left rest₁ _ depth =>
      (binaryConnective rest₁ depth).andThen fun op rest₂ _ depth =>
      (formula rest₂ depth).andThen fun right rest₃ _ depth =>
      (closing rest₃ depth).map fun _ => .binary op left right).Restores text d
      (Run.operands text (Nat.lt_succ_self _) d fun rest _ depth => Run.formula rest depth) := by
  have hinner : ∀ rest : List Char, d < maxDepth →
      (Run.formula rest (d + 1)).Balanced rest (d + 1) :=
    fun rest hlt => Run.formula_balanced rest hlt
  refine ⟨?_, ?_, ?_, ?_, ?_⟩
  · exact (Run.formula_balanced text hd).restores (Run.outcome_formula text d)
  · refine (Run.negation_balanced hd fun rest _ => hinner rest).restores ?_
    simp only [Run.outcome_negation, Run.outcome_formula]
  · refine (Run.parenthesised_balanced hd fun rest _ => hinner rest).restores ?_
    simp only [Run.outcome_parenthesised, Run.outcome_formula]
  · refine (Run.operand_balanced hd (hinner text)).restores ?_
    simp only [Run.outcome_operand, Run.outcome_formula]
  · refine (Run.operands_balanced hd fun rest _ => hinner rest).restores ?_
    simp only [Run.outcome_operands, Run.outcome_formula]

/-- The tilde opens the last nesting there is, so the parenthesis is refused.  Then the nesting of
the tilde is closed again. -/
theorem counter_is_back_from_limit :
    255 ≤ maxDepth ∧ formula ['~', '(', 'p'] 255 = .failure (.tooDeep "p") ['p'] 255 ∧
      (formula ['~', '(', 'p'] 255).Restores ['~', '(', 'p'] 255
        (Run.formula ['~', '(', 'p'] 255) :=
  ⟨by decide, by cbv, (nesting_counter_is_balanced ['~', '(', 'p'] 255 (by decide)).1⟩

end Reader
end Sentential
