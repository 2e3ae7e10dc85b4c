/-
# Valuations are counted in binary

The valuations of a set of `n` variables are the numbers below `2 ^ n` in binary, one digit for
each variable and the highest digit for the first one.  So they come in lexicographic order, false
before true and the last variable changing fastest, and every assignment of truth values to the
variables is the digits of exactly one number.

A set has at most eleven variables.  Words with more bits than that are enough to count with: no
shift is as wide as the word, and no place is counted below zero.

* `truthRows_eq`: the rows of truth values are the numbers in binary;
* `Valuation.counted?_eq`: what is counted with words is the list of all valuations;
* `Valuation.all_counts_in_binary`: the enumeration, as a whole.
-/
import Mathlib.Algebra.Group.Nat.Defs
import Mathlib.Data.List.Nodup
import Mathlib.Logic.ExistsUnique
import Sentential.Proofs.Formula.Equivalence

namespace Sentential

/-! ## 1. Rows of truth values -/

/-- The `n` lowest binary digits of a number, the highest one first. -/
def bits (n i : Nat) : List Bool := (List.range n).map fun k => i.testBit (n - 1 - k)

theorem length_bits (n i : Nat) : (bits n i).length = n := by
  rw [bits, List.length_map, List.length_range]

theorem getElem?_bits {n k : Nat} (hk : k < n) (i : Nat) :
    (bits n i)[k]? = some (i.testBit (n - 1 - k)) := by
  rw [bits, List.getElem?_map, List.getElem?_range hk]
  rfl

theorem bits_succ (n i : Nat) : bits (n + 1) i = i.testBit n :: bits n i := by
  rw [bits, List.range_succ_eq_map, List.map_cons, List.map_map, bits]
  refine congrArg₂ List.cons rfl (List.map_congr_left fun k hk => ?_)
  have hplace : n + 1 - 1 - (k + 1) = n - 1 - k := by omega
  exact congrArg i.testBit hplace

/-- The rows that begin with true are those of the numbers with the next higher digit. -/
theorem bits_two_pow_add {n i : Nat} (hi : i < 2 ^ n) :
    bits (n + 1) (2 ^ n + i) = true :: bits n i := by
  rw [bits_succ, Nat.testBit_two_pow_add_eq, Nat.testBit_lt_two_pow hi]
  refine congrArg (true :: ·) (List.map_congr_left fun k hk => ?_)
  have hplace : n - 1 - k < n := by
    have hk := List.mem_range.mp hk
    omega
  exact Nat.testBit_two_pow_add_gt hplace i

/-- **The rows of truth values are the numbers in binary**, in their order. -/
theorem truthRows_eq (n : Nat) : truthRows n = (List.range (2 ^ n)).map (bits n) := by
  induction n with
  | zero => rfl
  | succ n ih =>
    have hdouble : 2 ^ (n + 1) = 2 ^ n + 2 ^ n := by omega
    rw [truthRows, ih, hdouble, List.range_add, List.map_append, List.map_map, List.map_map,
      List.map_map]
    refine congrArg₂ (· ++ ·) (List.map_congr_left fun i hi => ?_)
      (List.map_congr_left fun i hi => ?_)
    · show false :: bits n i = bits (n + 1) i
      rw [bits_succ, Nat.testBit_lt_two_pow (List.mem_range.mp hi)]
    · exact (bits_two_pow_add (List.mem_range.mp hi)).symm

theorem length_truthRows (n : Nat) : (truthRows n).length = 2 ^ n := by
  rw [truthRows_eq, List.length_map, List.length_range]

/-- A number is known by its digits. -/
theorem bits_injective {n i j : Nat} (hi : i < 2 ^ n) (hj : j < 2 ^ n)
    (h : bits n i = bits n j) : i = j := by
  refine Nat.eq_of_testBit_eq fun p => ?_
  by_cases hp : p < n
  · have hk : n - 1 - p < n := by omega
    have hplace : n - 1 - (n - 1 - p) = p := by omega
    have hbit := congrArg (·[n - 1 - p]?) h
    simp only [getElem?_bits hk, hplace, Option.some.injEq] at hbit
    exact hbit
  · have hpow : 2 ^ n ≤ 2 ^ p := Nat.pow_le_pow_right (by decide) (Nat.le_of_not_lt hp)
    rw [Nat.testBit_lt_two_pow (Nat.lt_of_lt_of_le hi hpow),
      Nat.testBit_lt_two_pow (Nat.lt_of_lt_of_le hj hpow)]

/-- The first row comes before the second one in lexicographic order, false before true. -/
def EarlierRow (row row' : List Bool) : Prop :=
  List.Lex (fun a b => a = false ∧ b = true) row row'

theorem pairwise_truthRows (n : Nat) : (truthRows n).Pairwise EarlierRow := by
  induction n with
  | zero => exact List.pairwise_singleton _ _
  | succ n ih =>
    refine List.pairwise_append.mpr ⟨?_, ?_, ?_⟩
    · exact List.pairwise_map.mpr (ih.imp fun h => .cons h)
    · exact List.pairwise_map.mpr (ih.imp fun h => .cons h)
    · intro row hrow row' hrow'
      obtain ⟨_, -, rfl⟩ := List.mem_map.mp hrow
      obtain ⟨_, -, rfl⟩ := List.mem_map.mp hrow'
      exact .rel ⟨rfl, rfl⟩

/-! ## 2. The valuations of a set -/

namespace Valuation

variable {V : VariableSet} {v : Valuation} {i : Nat}

theorem length_all (V : VariableSet) : (all V).length = 2 ^ V.size := by
  rw [all, List.length_map, length_truthRows]

/-- The valuations are the numbers in binary. -/
theorem all_eq (V : VariableSet) :
    all V = (List.range (2 ^ V.size)).map fun i => VariableMap.zip V (bits V.size i) := by
  rw [all, truthRows_eq, List.map_map]
  rfl

theorem getElem?_all (hi : i < 2 ^ V.size) :
    (all V)[i]? = some (VariableMap.zip V (bits V.size i)) := by
  rw [all_eq, List.getElem?_map, List.getElem?_range hi]
  rfl

/-- The truth values, in the order of insertion. -/
def values (v : Valuation) : List Bool := v.entries.map Prod.snd

theorem values_zip {row : List Bool} (h : row.length = V.size) :
    values (VariableMap.zip V row) = row :=
  List.map_snd_zip (Nat.le_of_eq h)

theorem pairwise_all (V : VariableSet) :
    (all V).Pairwise fun v w => EarlierRow v.values w.values := by
  refine List.pairwise_map.mpr ((pairwise_truthRows V.size).imp_of_mem ?_)
  intro row row' hrow hrow' h
  rw [values_zip (mem_truthRows.mp hrow), values_zip (mem_truthRows.mp hrow')]
  exact h

/-- The digits of a number are the assignment that its valuation makes. -/
theorem bits_eq_of_getElem?_all {σ : Variable → Bool} (hi : i < 2 ^ V.size)
    (hv : (all V)[i]? = some v) (hσ : ∀ a ∈ V, v.get? a = some (σ a)) :
    bits V.size i = V.toList.map σ := by
  rw [getElem?_all hi, Option.some.injEq] at hv
  subst hv
  exact VariableMap.eq_map_of_get?_zip (length_bits _ _) hσ

/-- **Every assignment of truth values has one number.** -/
theorem existsUnique_number (V : VariableSet) (σ : Variable → Bool) :
    ∃! i, i < 2 ^ V.size ∧ ∃ v, (all V)[i]? = some v ∧ ∀ a ∈ V, v.get? a = some (σ a) := by
  obtain ⟨v, hmem, hσ⟩ := exists_mem_all V σ
  obtain ⟨i, hv⟩ := List.mem_iff_getElem?.mp hmem
  have hi : i < 2 ^ V.size := by
    rw [← length_all]
    exact (List.getElem?_eq_some_iff.mp hv).1
  refine ⟨i, ⟨hi, v, hv, hσ⟩, ?_⟩
  rintro j ⟨hj, w, hw, hτ⟩
  refine bits_injective hj hi ?_
  rw [bits_eq_of_getElem?_all hj hw hτ, bits_eq_of_getElem?_all hi hv hσ]

end Valuation

/-! ## 3. Words that are wide enough -/

namespace Word

variable {w n i k x y places : Nat}

/-- The word shifted to the left, unless the shift is as wide as the word. -/
def shiftLeft? (x places : BitVec w) : Option (BitVec w) :=
  if places.toNat < w then some (x <<< places.toNat) else none

/-- The word shifted to the right, unless the shift is as wide as the word. -/
def shiftRight? (x places : BitVec w) : Option (BitVec w) :=
  if places.toNat < w then some (x >>> places.toNat) else none

/-- The difference of two words, unless it is below zero. -/
def sub? (x y : BitVec w) : Option (BitVec w) :=
  if y.toNat ≤ x.toNat then some (x - y) else none

/-- The digit at position `k` of the `n` lowest ones of `i`, the highest of them at position 0. -/
def digit? (n i k : BitVec w) : Option Bool := do
  let last ← sub? n 1#w
  let place ← sub? last k
  let shifted ← shiftRight? i place
  return shifted &&& 1#w == 1#w

theorem toNat_ofNat_of_lt (h : x < 2 ^ w) : (BitVec.ofNat w x).toNat = x := by
  rw [BitVec.toNat_ofNat, Nat.mod_eq_of_lt h]

theorem lt_two_pow_of_lt (h : x < w) : x < 2 ^ w :=
  Nat.lt_trans h Nat.lt_two_pow_self

theorem shiftLeft?_ofNat (hp : places < w) (x : Nat) :
    shiftLeft? (BitVec.ofNat w x) (BitVec.ofNat w places) =
      some (BitVec.ofNat w (x <<< places)) := by
  rw [shiftLeft?, toNat_ofNat_of_lt (lt_two_pow_of_lt hp), if_pos hp]
  refine congrArg some (BitVec.eq_of_toNat_eq ?_)
  simp [Nat.shiftLeft_eq]

theorem shiftRight?_ofNat (hp : places < w) (hx : x < 2 ^ w) :
    shiftRight? (BitVec.ofNat w x) (BitVec.ofNat w places) =
      some (BitVec.ofNat w (x >>> places)) := by
  rw [shiftRight?, toNat_ofNat_of_lt (lt_two_pow_of_lt hp), if_pos hp]
  refine congrArg some (BitVec.eq_of_toNat_eq ?_)
  have hle : x >>> places < 2 ^ w := Nat.lt_of_le_of_lt (Nat.shiftRight_le x places) hx
  rw [BitVec.toNat_ushiftRight, toNat_ofNat_of_lt hx, toNat_ofNat_of_lt hle]

theorem sub?_ofNat (hx : x < 2 ^ w) (h : y ≤ x) :
    sub? (BitVec.ofNat w x) (BitVec.ofNat w y) = some (BitVec.ofNat w (x - y)) := by
  have hy : y < 2 ^ w := Nat.lt_of_le_of_lt h hx
  rw [sub?, toNat_ofNat_of_lt hx, toNat_ofNat_of_lt hy, if_pos h,
    BitVec.ofNat_sub_ofNat_of_le x y hy h]

theorem and_one_beq (hw : 0 < w) (hx : x < 2 ^ w) :
    (BitVec.ofNat w x &&& 1#w == 1#w) = x.testBit 0 := by
  have hone : 1 < 2 ^ w := Nat.one_lt_two_pow (by omega)
  rw [Bool.eq_iff_iff, beq_iff_eq, ← BitVec.toNat_inj, BitVec.toNat_and, toNat_ofNat_of_lt hx,
    toNat_ofNat_of_lt hone, Nat.and_one_is_mod, Nat.testBit_zero, decide_eq_true_eq]

/-- **Every digit is reached** if there are fewer digits than the word has bits. -/
theorem digit?_ofNat (hn : n < w) (hi : i < 2 ^ n) (hk : k < n) :
    digit? (BitVec.ofNat w n) (BitVec.ofNat w i) (BitVec.ofNat w k) =
      some (i.testBit (n - 1 - k)) := by
  have hnw : n < 2 ^ w := lt_two_pow_of_lt hn
  have hiw : i < 2 ^ w := Nat.lt_trans hi (Nat.pow_lt_pow_right (by decide) hn)
  have hplace : n - 1 - k < w := by omega
  have hshifted : i >>> (n - 1 - k) < 2 ^ w := Nat.lt_of_le_of_lt (Nat.shiftRight_le _ _) hiw
  have hlast := sub?_ofNat (y := 1) hnw (by omega)
  have hsub := sub?_ofNat (x := n - 1) (y := k) (w := w) (by omega) (by omega)
  simp only [digit?, hlast, hsub, shiftRight?_ofNat hplace hiw, Option.bind_eq_bind,
    Option.bind_some, and_one_beq (Nat.zero_lt_of_lt hn) hshifted, Nat.testBit_shiftRight,
    Nat.add_zero]
  rfl

end Word

/-! ## 4. Counting with words -/

theorem mapM_eq_some_map {α β : Type} {f : α → Option β} {g : α → β} {as : List α}
    (h : ∀ a ∈ as, f a = some (g a)) : as.mapM f = some (as.map g) := by
  induction as with
  | nil => rfl
  | cons a as ih =>
    rw [List.mapM_cons, h a List.mem_cons_self, ih fun b hb => h b (List.mem_cons_of_mem a hb)]
    rfl

namespace VariableMap

variable {α : Type}

theorem entries_insert_of_notMem {m : VariableMap α} {a : Variable} (h : a ∉ m.keys) (value : α) :
    (m.insert a value).entries = m.entries ++ [(a, value)] := by
  rw [insert, dif_neg h]

theorem entries_foldl_insert {m : VariableMap α} {entries : List (Variable × α)}
    (h : ((m.entries ++ entries).map Prod.fst).Nodup) :
    (entries.foldl (fun m e => m.insert e.1 e.2) m).entries = m.entries ++ entries := by
  induction entries generalizing m with
  | nil => exact (List.append_nil _).symm
  | cons e es ih =>
    have hnew : e.1 ∉ m.keys := by
      rw [List.map_append, List.nodup_append] at h
      exact fun he => h.2.2 _ he _ List.mem_cons_self rfl
    have hinsert : (m.insert e.1 e.2).entries ++ es = m.entries ++ e :: es := by
      rw [entries_insert_of_notMem hnew, List.append_assoc, List.singleton_append]
    rw [List.foldl_cons, ih (by rwa [hinsert]), hinsert]

/-- A map is what comes of inserting its entries one after another. -/
theorem ofList_entries (m : VariableMap α) : ofList m.entries = m :=
  VariableMap.ext (entries_foldl_insert (m := empty) m.nodup)

end VariableMap

namespace Valuation

variable {V : VariableSet} {w i : Nat}

/-- The variables of a set, each with its digit of a word. -/
def digits? (V : VariableSet) (i : BitVec w) : Option (List (Variable × Bool)) :=
  V.toList.zipIdx.mapM fun (a, k) =>
    (Word.digit? (BitVec.ofNat w V.size) i (BitVec.ofNat w k)).map fun b => (a, b)

/-- The valuation with a number: its digits, inserted for one variable after another. -/
def numbered? (V : VariableSet) (i : BitVec w) : Option Valuation :=
  (digits? V i).map VariableMap.ofList

/-- The valuations of a set, counted up from zero with words of `w` bits.  There are none if a
shift is too wide for a word or a place is below zero. -/
def counted? (w : Nat) (V : VariableSet) : Option (List Valuation) := do
  let count ← Word.shiftLeft? 1#w (BitVec.ofNat w V.size)
  (List.range count.toNat).mapM fun i => numbered? V (BitVec.ofNat w i)

theorem zip_bits (V : VariableSet) (i : Nat) :
    (VariableMap.zip V (bits V.size i)).entries =
      V.toList.zipIdx.map fun (a, k) => (a, i.testBit (V.size - 1 - k)) := by
  show V.toList.zip ((List.range V.toList.length).map _) = _
  rw [List.zipIdx_eq_zip_range', ← List.range_eq_range', List.zip_map_right]
  rfl

theorem digits?_ofNat (hw : V.size < w) (hi : i < 2 ^ V.size) :
    digits? V (BitVec.ofNat w i) = some (VariableMap.zip V (bits V.size i)).entries := by
  rw [zip_bits]
  refine mapM_eq_some_map fun (a, k) hak => ?_
  have hk : k < V.size := (List.mem_zipIdx' hak).1
  simp only [Word.digit?_ofNat hw hi hk, Option.map_some]

theorem numbered?_ofNat (hw : V.size < w) (hi : i < 2 ^ V.size) :
    numbered? V (BitVec.ofNat w i) = some (VariableMap.zip V (bits V.size i)) := by
  rw [numbered?, digits?_ofNat hw hi, Option.map_some, VariableMap.ofList_entries]

/-- **Nothing is lost by counting with words** that have more bits than there are variables. -/
theorem counted?_eq (hw : V.size < w) : counted? w V = some (all V) := by
  have hcount : (BitVec.ofNat w (1 <<< V.size)).toNat = 2 ^ V.size := by
    rw [Nat.one_shiftLeft]
    exact Word.toNat_ofNat_of_lt (Nat.pow_lt_pow_right (by decide) hw)
  have hshift := Word.shiftLeft?_ofNat hw 1
  simp only [counted?, hshift, Option.bind_eq_bind, Option.bind_some, hcount, all_eq]
  exact mapM_eq_some_map fun i hi => numbered?_ofNat hw (List.mem_range.mp hi)

/-! ## 5. The enumeration -/

/-- **Valuations are counted in binary.**  A set has `n ≤ 11` variables and `2 ^ n` valuations,
each of which binds exactly these variables and in their order.  The valuation with the number `i`
gives the variable at position `k` the digit of `i` in front of `n - 1 - k` others, so each
assignment of truth values has one number, and the order is lexicographic with false before true.
Words of more than eleven bits are enough to count like this. -/
theorem all_counts_in_binary (V : VariableSet) :
    V.size ≤ 11 ∧ (all V).length = 2 ^ V.size ∧
    (∀ i, i < 2 ^ V.size → ∃ v, (all V)[i]? = some v ∧ v.keys = V.toList ∧
      ∀ k a, V.toList[k]? = some a → v.get? a = some (i.testBit (V.size - 1 - k))) ∧
    (∀ σ : Variable → Bool, ∃! i, i < 2 ^ V.size ∧
      ∃ v, (all V)[i]? = some v ∧ ∀ a ∈ V, v.get? a = some (σ a)) ∧
    ((all V).Pairwise fun v w => EarlierRow v.values w.values) ∧
    ∀ w, 11 < w → counted? w V = some (all V) := by
  refine ⟨V.size_le, length_all V, ?_, existsUnique_number V, pairwise_all V, ?_⟩
  · intro i hi
    refine ⟨_, getElem?_all hi, VariableMap.keys_zip (length_bits _ _), ?_⟩
    intro k a ha
    have hk : k < V.size := (List.getElem?_eq_some_iff.mp ha).1
    exact VariableMap.get?_zip ha (getElem?_bits hk i)
  · exact fun w hw => counted?_eq (Nat.lt_of_le_of_lt V.size_le hw)

/-- The third of the four valuations of two letters, met in the order that is not the alphabet's. -/
theorem counts_letters_as_they_are_met :
    (∃ v, (all (.ofList [.r, .p, .r]))[2]? = some v ∧ v.keys = [.r, .p] ∧
      v.get? .r = some true ∧ v.get? .p = some false) ∧
    counted? 64 (.ofList [.r, .p, .r]) = some (all (.ofList [.r, .p, .r])) := by
  obtain ⟨-, -, hnumbered, -, -, hwords⟩ := all_counts_in_binary (.ofList [.r, .p, .r])
  obtain ⟨v, hv, hkeys, hdigits⟩ := hnumbered 2 (by decide)
  refine ⟨⟨v, hv, hkeys, ?_, ?_⟩, hwords 64 (by decide)⟩
  · exact hdigits 0 .r rfl
  · exact hdigits 1 .p rfl

end Valuation
end Sentential
