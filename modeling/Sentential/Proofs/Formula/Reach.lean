/-
# Every formula of the right shape can be drawn

For a formula of the shape that random formulas have there are words that make it come out: those
of a node are the word for its negation, the word for its connective, the word for the share of its
left side, the words of its left side and the words of its right side.  The induction is on the
formula; what words come behind its own makes no difference.

* `Formula.exists_draws`: words for a formula, wherever it stands in a larger one;
* `Formula.random_reaches_every_shape`: words for a whole random formula.
-/
import Sentential.Proofs.Formula.Random
import Sentential.Proofs.Random.WordList

namespace Sentential
namespace Formula

open WordList

/-! ## 1. The draws of a node -/

theorem exists_gives_drawNegation (yes : Bool) :
    ∃ w, Gives (drawNegation false) [w] yes :=
  exists_gives_oneInFour yes

/-- Below a negation no word is needed for there to be no other one. -/
theorem exists_gives_no_negation (negated : Bool) :
    ∃ words, Gives (drawNegation negated) words false := by
  cases negated with
  | true => exact ⟨[], fun s more h => ⟨s, rfl, h⟩⟩
  | false =>
    obtain ⟨w, hw⟩ := exists_gives_drawNegation false
    exact ⟨[w], hw⟩

theorem exists_gives_drawConnective (op : BinaryConnective) :
    ∃ w, Gives drawConnective [w] op := by
  obtain ⟨i, hi⟩ : ∃ i : Fin (3 + 1), BinaryConnective.all[i] = op := by
    cases op
    · exact ⟨0, rfl⟩
    · exact ⟨1, rfl⟩
    · exact ⟨2, rfl⟩
    · exact ⟨3, rfl⟩
  obtain ⟨w, hw⟩ := exists_gives_upTo (by decide) i
  refine ⟨w, ?_⟩
  intro s more h
  obtain ⟨s', hdraw, hs'⟩ := hw s more h
  refine ⟨s', ?_, hs'⟩
  simp only [drawConnective, hdraw, hi]

/-! ## 2. The words of a formula -/

/-- The formula is built from its letters if the words come next, and uses up these words. -/
def Draws (negated : Bool) (letters : List Variable) (words : List UInt64) (f : Formula) : Prop :=
  ∀ pool (s : WordList) more, s.Ahead (words ++ more) →
    ∃ s', build f.binaryCount negated (letters ++ pool) s = some (f, pool, s') ∧ s'.Ahead more

theorem draws_atom (negated : Bool) (letter : Variable) :
    Draws negated [letter] [] (.atom (.variable letter)) := by
  intro pool s more h
  exact ⟨s, build_leaf negated letter pool s, h⟩

theorem Draws.negation {f : Formula} {letters : List Variable} {words : List UInt64}
    (hf : Draws true letters words f) (hbinary : f.IsBinary) :
    ∃ words', Draws false letters words' (.negation f) := by
  obtain ⟨k, hk⟩ := Nat.exists_eq_add_of_lt (binaryCount_pos hbinary)
  rw [Nat.zero_add] at hk
  obtain ⟨w, hw⟩ := exists_gives_drawNegation true
  refine ⟨w :: words, ?_⟩
  intro pool s more h
  obtain ⟨s₁, hdraw, hs₁⟩ := hw s (words ++ more) h
  obtain ⟨s', hbuild, hs'⟩ := hf pool s₁ more hs₁
  rw [hk] at hbuild
  refine ⟨s', ?_, hs'⟩
  rw [binaryCount, hk]
  exact build_negation hdraw hbuild

theorem Draws.binary {l r : Formula} {lefts rights : List Variable} {leftWords rightWords}
    (hl : Draws false lefts leftWords l) (hr : Draws false rights rightWords r)
    (op : BinaryConnective) (negated : Bool)
    (hsize : 2 * (l.binaryCount + r.binaryCount) < Word.size32) :
    ∃ words, Draws negated (lefts ++ rights) words (.binary op l r) := by
  obtain ⟨noNegation, hnone⟩ := exists_gives_no_negation negated
  obtain ⟨wop, hop⟩ := exists_gives_drawConnective op
  obtain ⟨wshare, hshare⟩ := exists_gives_upTo hsize ⟨l.binaryCount, by omega⟩
  refine ⟨noNegation ++ ([wop] ++ ([wshare] ++ (leftWords ++ rightWords))), ?_⟩
  intro pool s more h
  simp only [List.append_assoc] at h
  obtain ⟨s₁, hs, h₁⟩ := hnone s _ h
  obtain ⟨s₂, hs₁, h₂⟩ := hop s₁ _ h₁
  obtain ⟨s₃, hs₂, h₃⟩ := hshare s₂ _ h₂
  obtain ⟨s₄, hleft, h₄⟩ := hl (rights ++ pool) s₃ _ h₃
  obtain ⟨s', hright, h'⟩ := hr pool s₄ more h₄
  have hrest : l.binaryCount + r.binaryCount - l.binaryCount = r.binaryCount := by omega
  refine ⟨s', ?_, h'⟩
  rw [binaryCount, List.append_assoc]
  exact build_binary hs hs₁ hs₂ hleft (by rw [hrest]; exact hright)

/-- **Words for a formula**, at the start or below a connective; below a negation that has been
drawn only for one that is none itself. -/
theorem exists_draws {f : Formula} {letters : List Variable} (negated : Bool)
    (hshape : f.HasShape letters) (hsize : 2 * f.binaryCount < Word.size32)
    (hnegated : negated = true → f.IsBinary) :
    ∃ words, Draws negated letters words f := by
  induction f generalizing letters negated with
  | atom a =>
    obtain ⟨letter, rfl, rfl⟩ := hasShape_atom_iff.mp hshape
    exact ⟨[], draws_atom negated letter⟩
  | negation f ih =>
    obtain ⟨hbinary, hf⟩ := hasShape_negation_iff.mp hshape
    cases negated with
    | true => exact absurd (hnegated rfl) (not_isBinary_negation f)
    | false =>
      obtain ⟨words, hwords⟩ := ih true hf hsize fun _ => hbinary
      exact hwords.negation hbinary
  | binary op l r ihl ihr =>
    obtain ⟨lefts, rights, rfl, hl, hr⟩ := hasShape_binary_iff.mp hshape
    rw [binaryCount] at hsize
    obtain ⟨leftWords, hleft⟩ := ihl false hl (by omega) (fun h => absurd h Bool.false_ne_true)
    obtain ⟨rightWords, hright⟩ := ihr false hr (by omega) (fun h => absurd h Bool.false_ne_true)
    exact hleft.binary hright op negated (by omega)

/-! ## 3. Random formulas -/

/-- **Every formula of the right shape can be drawn.**  There are words that make it come out,
whatever words come behind them. -/
theorem random_reaches_every_shape {size : Nat} (hpos : 1 ≤ size) (hle : size ≤ 11) {f : Formula}
    (hleaves : f.leaves = (Variable.all.take size).map .variable) (hneg : f.NegatesBinary) :
    ∃ words : List UInt64, ∀ more,
      (random size (WordList.ofList (words ++ more))).1 = .ok f := by
  have hshape : f.HasShape (Variable.all.take size) := ⟨hleaves, hneg⟩
  have hcount : f.binaryCount = size - 1 := by
    have hlen := hshape.length
    rw [List.length_take_of_le hle] at hlen
    omega
  have hsize : 2 * f.binaryCount < Word.size32 := by
    rw [hcount, Word.size32]
    omega
  obtain ⟨words, hwords⟩ := exists_draws false hshape hsize (fun h => absurd h Bool.false_ne_true)
  refine ⟨words, ?_⟩
  intro more
  obtain ⟨s', hbuild, -⟩ := hwords [] _ more (ahead_ofList (words ++ more))
  rw [List.append_nil, hcount] at hbuild
  rw [random_of_build hpos hle hbuild]

/-- A negation below a connective below a negation. -/
theorem random_reaches_nested_negation :
    ∃ words : List UInt64, ∀ more,
      (random 3 (WordList.ofList (words ++ more))).1 =
        .ok (.negation (.binary .conditional
          (.negation (.binary .biconditional (.atom (.variable .p)) (.atom (.variable .q))))
          (.atom (.variable .r)))) := by
  refine random_reaches_every_shape (by decide) (by decide) rfl ?_
  exact ⟨isBinary_binary _ _ _, ⟨isBinary_binary _ _ _, trivial, trivial⟩, trivial⟩

end Formula
end Sentential
