/-
# What is sampled is different

A number that is drawn at `j` is at most `j`, and the numbers chosen before are below `j`.  So
when it was chosen before, the number `j` that takes its place is a new one.

* `Sample.Distinct.place`: one draw keeps the chosen numbers different;
* `Sample.length_indices`, `Sample.distinct_indices`: so many different numbers as are asked for;
* `Sample.nodup_ofList`: no entry of a list is drawn twice.
-/
import Mathlib.Data.List.Nodup
import Sentential.Random.Sample

namespace Sentential
namespace Sample

/-- Different numbers below a bound. -/
structure Distinct (bound : Nat) (chosen : List Nat) : Prop where
  nodup : chosen.Nodup
  lt_bound : ∀ n ∈ chosen, n < bound

theorem Distinct.nil (bound : Nat) : Distinct bound [] :=
  ⟨List.nodup_nil, fun _ h => absurd h List.not_mem_nil⟩

/-- **One draw.**  The new number is put behind the others, among which it does not stand any
more. -/
theorem Distinct.place {chosen : List Nat} {j t : Nat} (h : Distinct j chosen) (ht : t ≤ j) :
    Distinct (j + 1) (Sample.place chosen j t) := by
  have hreplaced : ∀ n ∈ chosen, (if n = t then j else n) ≠ t := by
    intro n hn
    have hlt := h.lt_bound n hn
    split <;> omega
  have hinj : ∀ n ∈ chosen, ∀ k ∈ chosen,
      (if n = t then j else n) = (if k = t then j else k) → n = k := by
    intro n hn k hk
    have hlt := h.lt_bound n hn
    have hlt' := h.lt_bound k hk
    split <;> split <;> omega
  constructor
  · rw [Sample.place, List.nodup_append]
    refine ⟨List.Nodup.map_on hinj h.nodup, List.nodup_singleton t, ?_⟩
    intro a ha b hb
    obtain ⟨n, hn, rfl⟩ := List.mem_map.mp ha
    rw [List.mem_singleton.mp hb]
    exact hreplaced n hn
  · intro n hn
    rw [Sample.place, List.mem_append, List.mem_map, List.mem_singleton] at hn
    rcases hn with ⟨k, hk, rfl⟩ | rfl
    · have hlt := h.lt_bound k hk
      split <;> omega
    · omega

variable {σ : Type} [Source σ]

/-- **All draws.** -/
theorem Distinct.drawFrom {chosen : List Nat} {j : Nat} (h : Distinct j chosen) (count : Nat)
    (s : σ) : Distinct (j + count) (Sample.drawFrom j chosen count s).1 := by
  induction count generalizing j chosen s with
  | zero => exact h
  | succ count ih =>
    have hplaced := h.place (Nat.le_of_lt_succ (Source.upTo j s).1.isLt)
    rw [← Nat.add_assoc, Nat.add_right_comm]
    exact ih hplaced (Source.upTo j s).2

theorem length_drawFrom (j : Nat) (chosen : List Nat) (count : Nat) (s : σ) :
    (Sample.drawFrom j chosen count s).1.length = chosen.length + count := by
  induction count generalizing j chosen s with
  | zero => rfl
  | succ count ih =>
    rw [Sample.drawFrom, ih, Sample.place, List.length_append, List.length_map,
      List.length_singleton]
    omega

theorem nodup_indices (length amount : Nat) (s : σ) : (indices length amount s).1.Nodup :=
  ((Distinct.nil (length - amount)).drawFrom amount s).nodup

theorem length_indices (length amount : Nat) (s : σ) :
    (indices length amount s).1.length = amount := by
  rw [indices, length_drawFrom, List.length_nil, Nat.zero_add]

/-- **Different numbers below the bound**, if there are so many. -/
theorem distinct_indices {length amount : Nat} (h : amount ≤ length) (s : σ) :
    Distinct length (indices length amount s).1 := by
  have hdistinct := (Distinct.nil (length - amount)).drawFrom amount s
  rwa [Nat.sub_add_cancel h] at hdistinct

theorem length_ofList {α : Type} {xs : List α} {amount : Nat} (h : amount ≤ xs.length) (s : σ) :
    (Sample.ofList xs amount s).1.length = amount := by
  have hfound : ∀ i ∈ (indices xs.length amount s).1, (xs[i]?).isSome := by
    intro i hi
    rw [List.getElem?_eq_getElem ((distinct_indices h s).lt_bound i hi)]
    rfl
  show ((indices xs.length amount s).1.filterMap (xs[·]?)).length = amount
  rw [List.filterMap_length_eq_length.mpr hfound, length_indices]

theorem nodup_ofList {α : Type} {xs : List α} (h : xs.Nodup) (amount : Nat) (s : σ) :
    (Sample.ofList xs amount s).1.Nodup := by
  refine (nodup_indices xs.length amount s).filterMap ?_
  intro i k x hi hk
  have hlt : i < xs.length := (List.getElem?_eq_some_iff.mp (Option.mem_def.mp hi)).1
  exact (List.getElem?_inj hlt h).mp ((Option.mem_def.mp hi).trans (Option.mem_def.mp hk).symm)

theorem mem_of_mem_ofList {α : Type} {xs : List α} {amount : Nat} {s : σ} {x : α}
    (h : x ∈ (Sample.ofList xs amount s).1) : x ∈ xs := by
  obtain ⟨i, -, hi⟩ := List.mem_filterMap.mp h
  exact List.mem_of_getElem? hi

end Sample
end Sentential
