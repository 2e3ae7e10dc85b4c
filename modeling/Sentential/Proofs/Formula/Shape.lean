/-
# The shape of a random formula

Which formulas a random formula can be: its letters stand in its leaves from left to right, and a
negation stands only in front of a binary formula.  How many binary connectives there are follows
from the letters, and how deep they are nested from both.

* `Formula.length_leaves`: a formula has one leaf more than it has binary connectives;
* `Formula.depth_le`: there are at most two levels of nesting for each binary connective;
* `Formula.hasShape_binary_iff`: the letters of a binary formula are those of its left side, then
  those of its right side.
-/
import Sentential.Formula.Variables

namespace Sentential
namespace Formula

/-! ## 1. Negations -/

/-- The formula joins two formulas. -/
def IsBinary (f : Formula) : Prop := ∃ op l r, f = binary op l r

/-- Only binary formulas are negated, so no leaf is and nothing is negated twice. -/
def NegatesBinary : Formula → Prop
  | atom _ => True
  | negation f => f.IsBinary ∧ f.NegatesBinary
  | binary _ l r => l.NegatesBinary ∧ r.NegatesBinary

theorem isBinary_binary (op : BinaryConnective) (l r : Formula) : (binary op l r).IsBinary :=
  ⟨op, l, r, rfl⟩

theorem not_isBinary_atom (a : Atom) : ¬ (atom a).IsBinary := by
  rintro ⟨op, l, r, h⟩
  cases h

theorem not_isBinary_negation (f : Formula) : ¬ (negation f).IsBinary := by
  rintro ⟨op, l, r, h⟩
  cases h

/-! ## 2. Size and depth -/

theorem length_leaves (f : Formula) : f.leaves.length = f.binaryCount + 1 := by
  induction f with
  | atom a => rfl
  | negation f ih => exact ih
  | binary op l r ihl ihr =>
    rw [leaves, List.length_append, ihl, ihr, binaryCount]
    omega

theorem binaryCount_pos {f : Formula} (h : f.IsBinary) : 0 < f.binaryCount := by
  obtain ⟨op, l, r, rfl⟩ := h
  exact Nat.succ_pos _

/-- A binary formula stays below the bound, which leaves a level for the negation of it. -/
theorem depth_bounds {f : Formula} (h : f.NegatesBinary) :
    f.depth ≤ 2 * f.binaryCount ∧ (f.IsBinary → f.depth < 2 * f.binaryCount) := by
  induction f with
  | atom a => exact ⟨Nat.le_refl 0, fun ha => absurd ha (not_isBinary_atom a)⟩
  | negation f ih =>
    obtain ⟨hbinary, hf⟩ := h
    obtain ⟨-, hlt⟩ := ih hf
    exact ⟨hlt hbinary, fun hn => absurd hn (not_isBinary_negation f)⟩
  | binary op l r ihl ihr =>
    obtain ⟨hl, -⟩ := ihl h.1
    obtain ⟨hr, -⟩ := ihr h.2
    have hlt : (binary op l r).depth < 2 * (binary op l r).binaryCount := by
      rw [depth, binaryCount]
      omega
    exact ⟨Nat.le_of_lt hlt, fun _ => hlt⟩

theorem depth_le {f : Formula} (h : f.NegatesBinary) : f.depth ≤ 2 * f.binaryCount :=
  (depth_bounds h).1

/-! ## 3. Shapes -/

/-- The letters are the leaves of the formula, from left to right, and only binary formulas are
negated in it. -/
structure HasShape (f : Formula) (letters : List Variable) : Prop where
  leaves : f.leaves = letters.map .variable
  negations : f.NegatesBinary

theorem HasShape.length {f : Formula} {letters : List Variable} (h : f.HasShape letters) :
    letters.length = f.binaryCount + 1 := by
  rw [← length_leaves, h.leaves, List.length_map]

theorem HasShape.occurrences {f : Formula} {letters : List Variable} (h : f.HasShape letters) :
    f.occurrences = letters := by
  rw [Formula.occurrences, h.leaves, List.filterMap_map]
  exact List.filterMap_some

theorem hasShape_atom_iff {a : Atom} {letters : List Variable} :
    (atom a).HasShape letters ↔ ∃ letter, a = .variable letter ∧ letters = [letter] := by
  constructor
  · intro h
    obtain ⟨letter, hletters, hname⟩ := List.map_eq_singleton_iff.mp h.leaves.symm
    exact ⟨letter, hname.symm, hletters⟩
  · rintro ⟨letter, rfl, rfl⟩
    exact ⟨rfl, trivial⟩

theorem hasShape_negation_iff {f : Formula} {letters : List Variable} :
    (negation f).HasShape letters ↔ f.IsBinary ∧ f.HasShape letters := by
  constructor
  · intro h
    exact ⟨h.negations.1, h.leaves, h.negations.2⟩
  · rintro ⟨hbinary, h⟩
    exact ⟨h.leaves, hbinary, h.negations⟩

theorem hasShape_binary_iff {op : BinaryConnective} {l r : Formula} {letters : List Variable} :
    (binary op l r).HasShape letters ↔
      ∃ lefts rights, letters = lefts ++ rights ∧ l.HasShape lefts ∧ r.HasShape rights := by
  constructor
  · intro h
    obtain ⟨lefts, rights, hletters, hl, hr⟩ := List.map_eq_append_iff.mp h.leaves.symm
    exact ⟨lefts, rights, hletters, ⟨hl.symm, h.negations.1⟩, ⟨hr.symm, h.negations.2⟩⟩
  · rintro ⟨lefts, rights, rfl, hl, hr⟩
    refine ⟨?_, hl.negations, hr.negations⟩
    rw [Formula.leaves, hl.leaves, hr.leaves, List.map_append]

end Formula
end Sentential
