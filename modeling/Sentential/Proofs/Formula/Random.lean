/-
# Every random formula has the shape asked for

Whatever the source of chance says, a random formula takes its letters from the front of the pool
and leaves the rest of it.  The induction is on the budget: below a negation the budget stays the
same, but the next node is a binary one, so one budget is at most two calls.

* `Formula.build_hasShape`: what is built from a pool that has enough letters;
* `Formula.random_has_promised_shape`: random formulas of every size.
-/
import Mathlib.Data.List.Nodup
import Sentential.Formula.Random
import Sentential.Proofs.Formula.RoundTrip
import Sentential.Proofs.Formula.Shape
import Sentential.Random.WordList

namespace Sentential
namespace Formula

variable {σ : Type} [Source σ]

/-! ## 1. The three kinds of nodes -/

theorem build_leaf (negated : Bool) (letter : Variable) (pool : List Variable) (s : σ) :
    build 0 negated (letter :: pool) s = some (.atom (.variable letter), pool, s) := by
  rw [build]

theorem build_negation {k : Nat} {negated : Bool} {pool rest : List Variable} {s s₁ s' : σ}
    {f : Formula} (hdraw : drawNegation negated s = (true, s₁))
    (hf : build (k + 1) true pool s₁ = some (f, rest, s')) :
    build (k + 1) negated pool s = some (.negation f, rest, s') := by
  rw [build]
  split
  · next h =>
    rw [hdraw] at h
    cases h
    rw [hf]
    rfl
  · next h =>
    rw [hdraw] at h
    cases h

theorem build_binary {k : Nat} {negated : Bool} {pool rest rest' : List Variable}
    {op : BinaryConnective} {share : Fin (k + 1)} {l r : Formula} {s s₁ s₂ s₃ s₄ s' : σ}
    (hdraw : drawNegation negated s = (false, s₁)) (hop : drawConnective s₁ = (op, s₂))
    (hshare : Source.upTo k s₂ = (share, s₃))
    (hl : build share false pool s₃ = some (l, rest, s₄))
    (hr : build (k - share) false rest s₄ = some (r, rest', s')) :
    build (k + 1) negated pool s = some (.binary op l r, rest', s') := by
  rw [build]
  split
  · next h =>
    rw [hdraw] at h
    cases h
  · next h =>
    rw [hdraw] at h
    cases h
    simp only [hop, hshare, hl, hr, Option.bind_eq_bind, Option.bind_some]
    rfl

/-! ## 2. Building from a pool -/

/-- A node that is not negated splits its letters as the share says. -/
theorem exists_build_binary {k : Nat} (negated : Bool) {letters : List Variable}
    (pool : List Variable) {s s₁ : σ}
    (ih : ∀ j ≤ k, ∀ (letters pool : List Variable) (s : σ), letters.length = j + 1 →
      ∃ f s', build j false (letters ++ pool) s = some (f, pool, s') ∧ f.HasShape letters)
    (hdraw : drawNegation negated s = (false, s₁)) (hlen : letters.length = k + 2) :
    ∃ f s', build (k + 1) negated (letters ++ pool) s = some (f, pool, s') ∧
      f.HasShape letters ∧ f.IsBinary := by
  rcases hop : drawConnective s₁ with ⟨op, s₂⟩
  rcases hshare : Source.upTo k s₂ with ⟨share, s₃⟩
  have hle : share.val ≤ k := Nat.le_of_lt_succ share.isLt
  obtain ⟨lefts, rights, rfl, hlefts⟩ :
      ∃ lefts rights, letters = lefts ++ rights ∧ lefts.length = share.val + 1 :=
    ⟨letters.take (share.val + 1), letters.drop (share.val + 1),
      (List.take_append_drop _ _).symm, List.length_take_of_le (by omega)⟩
  have hrights : rights.length = k - share.val + 1 := by
    rw [List.length_append] at hlen
    omega
  obtain ⟨l, s₄, hl, hlshape⟩ := ih share.val hle lefts (rights ++ pool) s₃ hlefts
  obtain ⟨r, s', hr, hrshape⟩ := ih (k - share.val) (Nat.sub_le k _) rights pool s₄ hrights
  refine ⟨.binary op l r, s', ?_, ?_, isBinary_binary op l r⟩
  · rw [List.append_assoc]
    exact build_binary hdraw hop hshare hl hr
  · exact hasShape_binary_iff.mpr ⟨lefts, rights, rfl, hlshape, hrshape⟩

/-- **What is built has the shape asked for.**  A pool with a letter for each leaf is enough, and
what is behind these letters is left.  Right below a negation a binary formula is built. -/
theorem build_hasShape (k : Nat) (negated : Bool) {letters : List Variable}
    (pool : List Variable) (s : σ) (hlen : letters.length = k + 1) :
    ∃ f s', build k negated (letters ++ pool) s = some (f, pool, s') ∧ f.HasShape letters ∧
      (negated = true → 0 < k → f.IsBinary) := by
  induction k using Nat.strongRecOn generalizing negated letters pool s with
  | ind k ih =>
    cases k with
    | zero =>
      obtain ⟨letter, rfl⟩ := List.length_eq_one_iff.mp hlen
      refine ⟨_, s, build_leaf negated letter pool s, hasShape_atom_iff.mpr ⟨letter, rfl, rfl⟩, ?_⟩
      intro _ hk
      exact absurd hk (Nat.lt_irrefl 0)
    | succ k =>
      have smaller : ∀ j ≤ k, ∀ (letters pool : List Variable) (s : σ), letters.length = j + 1 →
          ∃ f s', build j false (letters ++ pool) s = some (f, pool, s') ∧
            f.HasShape letters := by
        intro j hj letters pool s hletters
        obtain ⟨f, s', hf, hshape, -⟩ :=
          ih j (Nat.lt_succ_of_le hj) false pool s hletters
        exact ⟨f, s', hf, hshape⟩
      rcases hdraw : drawNegation negated s with ⟨drawn, s₁⟩
      cases drawn with
      | false =>
        obtain ⟨f, s', hf, hshape, hbinary⟩ := exists_build_binary negated pool smaller hdraw hlen
        exact ⟨f, s', hf, hshape, fun _ _ => hbinary⟩
      | true =>
        -- no second negation can be drawn, so the operand is a binary formula
        obtain ⟨f, s', hf, hshape, hbinary⟩ :=
          exists_build_binary true (s := s₁) pool smaller rfl hlen
        refine ⟨.negation f, s', build_negation hdraw hf,
          hasShape_negation_iff.mpr ⟨hbinary, hshape⟩, ?_⟩
        intro hnegated
        rw [hnegated] at hdraw
        cases hdraw

/-! ## 3. Random formulas -/

theorem random_zero (s : σ) : random 0 s = (.error .emptySize, s) := by
  rw [random, if_pos rfl]

theorem random_of_length_lt {size : Nat} (h : Variable.all.length < size) (s : σ) :
    random size s = (.error (.alphabetExhausted size Variable.all.length), s) := by
  rw [random, if_neg (by omega), if_pos h]

theorem random_of_build {size : Nat} {f : Formula} {rest : List Variable} {s s' : σ}
    (hpos : 1 ≤ size) (hle : size ≤ Variable.all.length)
    (hf : build (size - 1) false (Variable.all.take size) s = some (f, rest, s')) :
    random size s = (.ok f, s') := by
  rw [random, if_neg (by omega), if_neg (by omega), hf]

/-- A size that the alphabet allows is one letter for each leaf. -/
theorem random_hasShape {size : Nat} (hpos : 1 ≤ size) (hle : size ≤ Variable.all.length)
    (s : σ) : ∃ f s', random size s = (.ok f, s') ∧ f.HasShape (Variable.all.take size) := by
  have hlen : (Variable.all.take size).length = size - 1 + 1 := by
    rw [List.length_take_of_le hle]
    omega
  obtain ⟨f, s', hf, hshape, -⟩ := build_hasShape (size - 1) false [] s hlen
  rw [List.append_nil] at hf
  exact ⟨f, s', random_of_build hpos hle hf, hshape⟩

/-- **Whatever the source of chance, a random formula is as promised.**  A size from 1 to 11 gives
a formula with so many letters, in alphabetical order and without repetition, that is read back
from its text; any other size gives an error without a draw.  A pool with enough letters never runs
out, and no share is larger than what there is to be shared. -/
theorem random_has_promised_shape :
    (∀ (size : Nat) (s : σ), 1 ≤ size → size ≤ 11 →
      ∃ f s', random size s = (.ok f, s') ∧
        f.leaves = (Variable.all.take size).map .variable ∧ f.leaves.Nodup ∧
        f.binaryCount = size - 1 ∧ f.NegatesBinary ∧ f.depth ≤ 2 * (size - 1) ∧
        parse (toString f) = .ok f) ∧
    (∀ (k : Nat) (negated : Bool) (pool : List Variable) (s : σ), k + 1 ≤ pool.length →
      ∃ f s', build k negated pool s = some (f, pool.drop (k + 1), s') ∧
        f.leaves = (pool.take (k + 1)).map .variable ∧ f.binaryCount = k ∧ f.NegatesBinary ∧
        (negated = true → ∀ g, f ≠ .negation g)) ∧
    (∀ (remaining : Nat) (s : σ), (Source.upTo remaining s).1.val ≤ remaining) ∧
    (∀ s : σ, random 0 s = (.error .emptySize, s)) ∧
    ∀ (size : Nat) (s : σ), 11 < size → random size s = (.error (.alphabetExhausted size 11), s) := by
  refine ⟨?_, ?_, ?_, random_zero, ?_⟩
  · intro size s hpos hle
    obtain ⟨f, s', hf, hshape⟩ := random_hasShape hpos hle s
    have hcount : f.binaryCount = size - 1 := by
      have hlen := hshape.length
      rw [List.length_take_of_le hle] at hlen
      omega
    have hdepth : f.depth ≤ 2 * (size - 1) := hcount ▸ depth_le hshape.negations
    refine ⟨f, s', hf, hshape.leaves, ?_, hcount, hshape.negations, hdepth, ?_⟩
    · rw [hshape.leaves]
      have hnodup := Variable.nodup_all.sublist (List.take_sublist size Variable.all)
      exact hnodup.map fun a b hab => Atom.variable.inj hab
    · refine parse_toString ?_
      rw [maxDepth]
      omega
  · intro k negated pool s hk
    have hlen : (pool.take (k + 1)).length = k + 1 := List.length_take_of_le hk
    obtain ⟨f, s', hf, hshape, hbinary⟩ := build_hasShape k negated (pool.drop (k + 1)) s hlen
    rw [List.take_append_drop] at hf
    refine ⟨f, s', hf, hshape.leaves, ?_, hshape.negations, ?_⟩
    · have hcount := hshape.length
      omega
    · rintro hnegated g rfl
      obtain ⟨hg, hgshape⟩ := hasShape_negation_iff.mp hshape
      have hk : 0 < k := by
        have hpos := binaryCount_pos hg
        have hlen := hgshape.length
        omega
      exact not_isBinary_negation g (hbinary hnegated hk)
  · intro remaining s
    exact Nat.le_of_lt_succ (Source.upTo remaining s).1.isLt
  · intro size s h
    exact random_of_length_lt h s

/-- The whole alphabet, drawn from a list that has no word but zero. -/
theorem random_with_every_letter :
    ∃ f s', random 11 (WordList.ofList [0]) = (.ok f, s') ∧
      f.leaves = Variable.all.map .variable ∧ f.depth ≤ 20 ∧ parse (toString f) = .ok f := by
  obtain ⟨hrandom, -⟩ := random_has_promised_shape (σ := WordList)
  obtain ⟨f, s', hf, hleaves, -, -, -, hdepth, hparse⟩ :=
    hrandom 11 (WordList.ofList [0]) (by decide) (by decide)
  exact ⟨f, s', hf, hleaves, hdepth, hparse⟩

end Formula
end Sentential
