/-
# A drawing determines the formula

Each node of a formula has a line of the drawing.  In front of its symbol stand four characters for
every step on the way from the root to it: the rail past each ancestor below the root, and the
branch of the node itself.  The symbols are therefore found again behind these characters, one below
the other, in an order in which every node stands before its operands.  As a symbol says how many
operands follow it, this sequence belongs to one formula only.

* `Formula.symbols_append_inj`: the sequence of the symbols determines the formula;
* `Formula.mem_nodes_iff`, `nodup_ways`: the nodes of a formula are the places in it, each once;
* `Formula.drawing_eq`: the lines of the drawing are those of the nodes;
* `Formula.drawing_determines_formula`: all together.
-/
import Mathlib.Data.List.Nodup
import Sentential.Formula.Drawing
import Sentential.Proofs.Formula.Blank
import Sentential.Proofs.Formula.Readability

namespace Sentential

/-! ## 1. Symbols -/

theorem Connective.ofChar?_of_mem_token (c : Connective) :
    ∀ x ∈ c.token, Atom.ofChar? x = none := by
  rcases c with _ | op
  · exact List.forall_mem_singleton.mpr rfl
  · cases op <;> simp [Connective.token, BinaryConnective.token] <;> decide

/-- No atom is written like a connective. -/
theorem Atom.name_ne_token (a : Atom) (c : Connective) : [a.name] ≠ c.token := by
  intro h
  have hmem : a.name ∈ c.token := h ▸ List.mem_singleton_self a.name
  exact a.name_ne_of_ofChar? (c.ofChar?_of_mem_token _ hmem) rfl

theorem Symbol.text_injective : Function.Injective Symbol.text := by
  intro s t h
  rcases s with a | c <;> rcases t with b | d
  · exact congrArg atom (Atom.name_injective (List.cons.inj h).1)
  · exact absurd h (a.name_ne_token d)
  · exact absurd h.symm (b.name_ne_token c)
  · exact congrArg connective (Connective.token_append_inj (congrArg (· ++ []) h)).1

namespace Formula

/-- **A symbol says how many operands follow it**, so formulas whose symbols are put one behind the
other are told apart. -/
theorem symbols_append_inj {f g : Formula} {s t : List Symbol}
    (h : f.symbols ++ s = g.symbols ++ t) : f = g ∧ s = t := by
  induction f generalizing g s t with
  | atom a =>
    cases g with
    | atom b => simpa [symbols] using h
    | negation g => simp [symbols] at h
    | binary op l r => simp [symbols] at h
  | negation f ih =>
    cases g with
    | atom b => simp [symbols] at h
    | negation g =>
      obtain ⟨rfl, hst⟩ := ih (List.cons.inj h).2
      exact ⟨rfl, hst⟩
    | binary op l r => simp [symbols] at h
  | binary op l r ihl ihr =>
    cases g with
    | atom b => simp [symbols] at h
    | negation g => simp [symbols] at h
    | binary op' l' r' =>
      simp only [symbols, List.cons_append, List.append_assoc, List.cons.injEq,
        Symbol.connective.injEq, Connective.binary.injEq] at h
      obtain ⟨rfl, hoperands⟩ := h
      obtain ⟨rfl, hright⟩ := ihl hoperands
      obtain ⟨rfl, hst⟩ := ihr hright
      exact ⟨rfl, hst⟩

theorem symbols_injective : Function.Injective symbols := by
  intro f g h
  exact (symbols_append_inj (congrArg (· ++ []) h)).1

/-! ## 2. Nodes -/

/-- A step from a node to one of its operands: to one with a sibling behind it, or to the last. -/
inductive Step where
  | inner
  | last
deriving DecidableEq

/-- What a subtree is hung with. -/
def Step.hanger : Step → Hanger
  | .inner => .inner
  | .last => .last

/-- The operand that a step leads to. -/
def operand? : Formula → Step → Option Formula
  | negation f, .last => some f
  | binary _ l _, .inner => some l
  | binary _ _ r, .last => some r
  | _, _ => none

/-- The part of a formula that some steps lead to. -/
def part? (f : Formula) : List Step → Option Formula
  | [] => some f
  | s :: way => (f.operand? s).bind (part? · way)

/-- A node of a formula: the steps that lead to it from the root, and its symbol. -/
structure Node where
  way : List Step
  symbol : Symbol
deriving DecidableEq

/-- The node as it is seen from the parent of the root. -/
def Node.below (s : Step) (n : Node) : Node := { n with way := s :: n.way }

/-- The nodes of a formula, each before those of its operands. -/
def nodes : Formula → List Node
  | atom a => [⟨[], .atom a⟩]
  | negation f => ⟨[], .connective .negation⟩ :: f.nodes.map (Node.below .last)
  | binary op l r =>
    ⟨[], .connective (.binary op)⟩ ::
      (l.nodes.map (Node.below .inner) ++ r.nodes.map (Node.below .last))

theorem map_symbol_nodes (f : Formula) : f.nodes.map Node.symbol = f.symbols := by
  induction f with
  | atom a => rfl
  | negation f ih => simp [nodes, symbols, ← ih, Function.comp_def, Node.below]
  | binary op l r ihl ihr =>
    simp [nodes, symbols, ← ihl, ← ihr, Function.comp_def, Node.below]

theorem mem_map_below {nodes : List Node} {s t : Step} {way : List Step} {symbol : Symbol} :
    ⟨t :: way, symbol⟩ ∈ nodes.map (Node.below s) ↔ t = s ∧ ⟨way, symbol⟩ ∈ nodes := by
  constructor
  · intro h
    obtain ⟨n, hn, heq⟩ := List.mem_map.mp h
    cases heq
    exact ⟨rfl, hn⟩
  · rintro ⟨rfl, hn⟩
    exact List.mem_map_of_mem hn

theorem way_ne_nil_of_mem_map_below {nodes : List Node} {s : Step} {n : Node}
    (h : n ∈ nodes.map (Node.below s)) : n.way ≠ [] := by
  obtain ⟨m, -, rfl⟩ := List.mem_map.mp h
  exact List.cons_ne_nil s m.way

/-- Only the root has no way to it. -/
theorem exists_nodes_eq (f : Formula) :
    ∃ others, f.nodes = ⟨[], f.symbol⟩ :: others ∧ ∀ n ∈ others, n.way ≠ [] := by
  cases f with
  | atom a => exact ⟨[], rfl, List.forall_mem_nil _⟩
  | negation f => exact ⟨_, rfl, fun n hn => way_ne_nil_of_mem_map_below hn⟩
  | binary op l r =>
    refine ⟨_, rfl, List.forall_mem_append.mpr ⟨?_, ?_⟩⟩
    · exact fun n hn => way_ne_nil_of_mem_map_below hn
    · exact fun n hn => way_ne_nil_of_mem_map_below hn

theorem root_mem_nodes {f : Formula} {symbol : Symbol} :
    ⟨[], symbol⟩ ∈ f.nodes ↔ f.symbol = symbol := by
  obtain ⟨others, hnodes, hothers⟩ := f.exists_nodes_eq
  have hroot : ⟨[], symbol⟩ ∉ others := fun h => hothers _ h rfl
  simp [hnodes, hroot, eq_comm]

/-- **The nodes of a formula are the places in it**, with the symbols at the roots of its parts. -/
theorem mem_nodes_iff {f : Formula} {way : List Step} {symbol : Symbol} :
    ⟨way, symbol⟩ ∈ f.nodes ↔ ∃ part, f.part? way = some part ∧ part.symbol = symbol := by
  induction way generalizing f with
  | nil => simp [root_mem_nodes, part?]
  | cons s way ih =>
    cases f with
    | atom a => simp [nodes, part?, operand?]
    | negation f => cases s <;> simp [nodes, mem_map_below, ih, part?, operand?]
    | binary op l r => cases s <;> simp [nodes, mem_map_below, ih, part?, operand?]

/-- No place is listed twice. -/
theorem nodup_ways (f : Formula) : (f.nodes.map Node.way).Nodup := by
  have hbelow (s : Step) {ways : List (List Step)} (h : ways.Nodup) : (ways.map (s :: ·)).Nodup :=
    h.map List.cons_injective
  induction f with
  | atom a => simp [nodes]
  | negation f ih =>
    simpa [nodes, Node.below, Function.comp_def] using hbelow .last ih
  | binary op l r ihl ihr =>
    have hdisjoint : ((l.nodes.map Node.way).map (Step.inner :: ·)).Disjoint
        ((r.nodes.map Node.way).map (Step.last :: ·)) := by
      intro way hinner hlast
      obtain ⟨_, -, rfl⟩ := List.mem_map.mp hinner
      obtain ⟨_, -, h⟩ := List.mem_map.mp hlast
      cases h
    simpa [nodes, Node.below, Function.comp_def] using
      (hbelow .inner ihl).append (hbelow .last ihr) hdisjoint

/-! ## 3. Lines -/

/-- What stands in front of a symbol: the rails past the ancestors below the root, then the branch
of the node, which the root has not. -/
def lead : List Step → List Char
  | [] => []
  | [s] => s.hanger.branch
  | s :: way => s.hanger.rail ++ lead way

/-- The line of a node. -/
def Node.line (n : Node) : List Char := lead n.way ++ n.symbol.text

theorem lead_cons {s : Step} {way : List Step} (h : way ≠ []) :
    lead (s :: way) = s.hanger.rail ++ lead way := by
  cases way with
  | nil => exact absurd rfl h
  | cons t way => rfl

/-- A subtree is hung by making its steps from one node higher up. -/
theorem hang_map_line (s : Step) (f : Formula) :
    s.hanger.hang (f.nodes.map Node.line) = (f.nodes.map (Node.below s)).map Node.line := by
  obtain ⟨others, hnodes, hothers⟩ := f.exists_nodes_eq
  have hrail : ∀ n ∈ others, s.hanger.rail ++ n.line = (n.below s).line := by
    intro n hn
    rw [Node.line, Node.line, Node.below, lead_cons (hothers n hn), List.append_assoc]
  rw [hnodes, List.map_cons, List.map_cons, List.map_cons, Hanger.hang, List.map_map, List.map_map]
  exact congrArg₂ List.cons rfl (List.map_congr_left hrail)

/-- **The lines of a drawing are those of the nodes.** -/
theorem drawing_eq (f : Formula) : f.drawing = f.nodes.map Node.line := by
  induction f with
  | atom a => rfl
  | negation f ih =>
    have hlast := hang_map_line .last f
    rw [drawing, ih, nodes, List.map_cons, ← hlast]
    rfl
  | binary op l r ihl ihr =>
    have hinner := hang_map_line .inner l
    have hlast := hang_map_line .last r
    rw [drawing, ihl, ihr, nodes, List.map_cons, List.map_append, ← hinner, ← hlast]
    rfl

/-! ## 4. Reading a drawing -/

/-- The characters that subtrees are hung with. -/
def glyphs : List Char := ['│', '├', '└', '─', ' ']

/-- What a line shows behind the characters that its node is hung with. -/
def shown (line : List Char) : List Char := line.dropWhile fun c => decide (c ∈ glyphs)

theorem mem_glyphs_of_mem_lead {way : List Step} : ∀ c ∈ lead way, c ∈ glyphs := by
  have hbranch (s : Step) : s.hanger.branch ⊆ glyphs := by cases s <;> decide
  have hrail (s : Step) : s.hanger.rail ⊆ glyphs := by cases s <;> decide
  induction way with
  | nil => exact List.forall_mem_nil _
  | cons s way ih =>
    cases way with
    | nil => exact hbranch s
    | cons t way => exact List.forall_mem_append.mpr ⟨hrail s, ih⟩

theorem length_lead (way : List Step) : (lead way).length = 4 * way.length := by
  have hbranch (s : Step) : s.hanger.branch.length = 4 := by cases s <;> rfl
  have hrail (s : Step) : s.hanger.rail.length = 4 := by cases s <;> rfl
  induction way with
  | nil => rfl
  | cons s way ih =>
    cases way with
    | nil => exact hbranch s
    | cons t way =>
      rw [lead_cons (List.cons_ne_nil t way), List.length_append, hrail, ih]
      simp
      omega

/-- No symbol begins like the characters in front of it. -/
theorem shown_text (s : Symbol) : shown s.text = s.text := by
  rcases s with (letter | b) | _ | op
  · cases letter <;> decide
  · cases b <;> decide
  · decide
  · cases op <;> decide

theorem Node.shown_line (n : Node) : shown n.line = n.symbol.text := by
  rw [Node.line, shown, List.dropWhile_append_of_pos]
  · exact shown_text n.symbol
  · simpa using mem_glyphs_of_mem_lead

theorem Node.spaced_line (n : Node) : Spaced n.line := by
  have hglyphs : ∀ c ∈ glyphs, isBlank c = true → c = ' ' := by simp [glyphs, isBlank]
  refine Spaced.append ?_ (.of_forall n.symbol.isBlank_of_mem_text)
  exact fun c hc => hglyphs c (mem_glyphs_of_mem_lead c hc)

theorem ofText_drawingText (f : Formula) :
    Lines.ofText f.drawingText.toList = f.nodes.map Node.line := by
  have hspaced : ∀ line ∈ f.nodes.map Node.line, Spaced line :=
    List.forall_mem_map.mpr fun n _ => n.spaced_line
  rw [drawingText, String.toList_ofList, drawing_eq, Lines.ofText_joined hspaced]

/-- **The symbols are read off the drawing.** -/
theorem map_shown_ofText_drawingText (f : Formula) :
    (Lines.ofText f.drawingText.toList).map shown = f.symbols.map Symbol.text := by
  have hshown : shown ∘ Node.line = Symbol.text ∘ Node.symbol := funext Node.shown_line
  rw [ofText_drawingText, List.map_map, hshown, ← List.map_map, map_symbol_nodes]

/-! ## 5. All together -/

/-- **A drawing determines the formula.**  No two formulas have the same drawing, however deeply
they are nested.  Its lines are those of the nodes: the nodes are the places in the formula, each
listed once, and their symbols are the formula's in pre-order.  A line has four characters for each
step on the way to its node, and behind them it shows the symbol. -/
theorem drawing_determines_formula :
    (∀ f g : Formula, f.drawingText = g.drawingText → f = g) ∧
    (∀ f : Formula,
      Lines.ofText f.drawingText.toList = f.nodes.map (fun n => lead n.way ++ n.symbol.text) ∧
      (∀ way symbol, ⟨way, symbol⟩ ∈ f.nodes ↔
        ∃ part, f.part? way = some part ∧ part.symbol = symbol) ∧
      (f.nodes.map Node.way).Nodup ∧ f.nodes.map Node.symbol = f.symbols ∧
      (Lines.ofText f.drawingText.toList).map shown = f.symbols.map Symbol.text) ∧
    ∀ way, (lead way).length = 4 * way.length := by
  refine ⟨?_, ?_, length_lead⟩
  · intro f g h
    have hsymbols : f.symbols.map Symbol.text = g.symbols.map Symbol.text := by
      rw [← map_shown_ofText_drawingText, h, map_shown_ofText_drawingText]
    exact symbols_injective (Symbol.text_injective.list_map hsymbols)
  · intro f
    exact ⟨f.ofText_drawingText, fun _ _ => mem_nodes_iff, f.nodup_ways, f.map_symbol_nodes,
      f.map_shown_ofText_drawingText⟩

/-- The rail leads past the operand of the negation to the last operand of the root.  The drawing is
that of no other formula, and shows the four symbols one below the other. -/
theorem drawn_past_negated_operand :
    let f : Formula := .binary .conditional (.negation (.atom (.variable .p)))
      (.atom (.variable .q))
    f.drawingText = "->\n├── ~\n│   └── p\n└── q\n" ∧
      (∀ g : Formula, g.drawingText = "->\n├── ~\n│   └── p\n└── q\n" → g = f) ∧
      (Lines.ofText f.drawingText.toList).map shown = [['-', '>'], ['~'], ['p'], ['q']] := by
  intro f
  have htext : f.drawingText = "->\n├── ~\n│   └── p\n└── q\n" := by decide
  obtain ⟨hinjective, hlines, -⟩ := drawing_determines_formula
  obtain ⟨-, -, -, -, hshown⟩ := hlines f
  exact ⟨htext, fun g hg => hinjective g f (hg.trans htext.symm), hshown⟩

end Formula
end Sentential
