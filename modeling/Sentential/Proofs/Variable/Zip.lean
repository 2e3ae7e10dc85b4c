/-
# Maps made of two lists

`VariableMap.zip` gives the variables of a set the values of a list, place by place.  No variable
stands at two places, so the value at a place is the one that the map gives.

* `VariableMap.keys_zip`: the variables that get a value;
* `VariableMap.get?_zip`, `VariableMap.exists_getElem?_of_get?_zip`: which value each of them gets.
-/
import Mathlib.Data.List.Basic
import Sentential.Variable.Map

namespace Sentential
namespace VariableMap

variable {α : Type}

/-! ## 1. Look-up in the two lists -/

theorem lookup_zip_map {as : List Variable} {σ : Variable → α} {a : Variable}
    (ha : a ∈ as) : (as.zip (as.map σ)).lookup a = some (σ a) := by
  induction as with
  | nil => exact absurd ha List.not_mem_nil
  | cons b bs ih =>
    rw [List.map_cons, List.zip_cons_cons, lookup_cons]
    split
    · next hab => rw [hab]
    · next hab => exact ih ((List.mem_cons.mp ha).resolve_left hab)

theorem exists_lookup_zip {as : List Variable} {values : List α} {a : Variable}
    (hlen : values.length = as.length) (ha : a ∈ as) :
    ∃ b, (as.zip values).lookup a = some b := by
  rw [← Option.isSome_iff_exists, Option.isSome_iff_ne_none, ne_eq, lookup_eq_none_iff, map_fst_zip,
    hlen, List.take_length]
  exact fun h => h ha

/-! ## 2. Maps -/

theorem keys_zip {V : VariableSet} {values : List α} (h : values.length = V.size) :
    (zip V values).keys = V.toList := by
  show (V.toList.zip values).map Prod.fst = V.toList
  rw [map_fst_zip, h, VariableSet.size, List.take_length]

theorem get?_zip {V : VariableSet} {values : List α} {k : Nat} {a : Variable} {b : α}
    (ha : V.toList[k]? = some a) (hb : values[k]? = some b) : (zip V values).get? a = some b := by
  obtain ⟨as, hnodup⟩ := V
  show (as.zip values).lookup a = some b
  replace ha : as[k]? = some a := ha
  induction as generalizing values k with
  | nil => cases ha
  | cons c cs ih =>
    cases values with
    | nil => cases hb
    | cons x xs =>
      rw [List.zip_cons_cons, lookup_cons]
      cases k with
      | zero =>
        cases ha
        cases hb
        rw [if_pos rfl]
      | succ k =>
        have hac : a ≠ c := by
          rintro rfl
          exact (List.nodup_cons.mp hnodup).1 (List.mem_of_getElem? ha)
        rw [if_neg hac]
        exact ih hb (List.nodup_cons.mp hnodup).2 ha

/-- What a map gives decides the values that it was made from. -/
theorem eq_map_of_get?_zip {V : VariableSet} {values : List α} {σ : Variable → α}
    (hlen : values.length = V.size) (h : ∀ a ∈ V, (zip V values).get? a = some (σ a)) :
    values = V.toList.map σ := by
  refine List.ext_getElem (hlen.trans (List.length_map σ).symm) fun k hk hk' => ?_
  have hkV : k < V.toList.length := by rwa [List.length_map] at hk'
  have hget := get?_zip (List.getElem?_eq_getElem hkV) (List.getElem?_eq_getElem hk)
  rw [h _ (List.getElem_mem hkV), Option.some.injEq] at hget
  rw [List.getElem_map, hget]

/-- What a map made of two lists gives stands at the place of the variable. -/
theorem exists_getElem?_of_get?_zip {V : VariableSet} {values : List α}
    {a : Variable} {value : α} (h : (zip V values).get? a = some value) :
    ∃ i : Nat, V.toList[i]? = some a ∧ values[i]? = some value := by
  have hlookup : (V.toList.zip values).lookup a = some value := h
  obtain ⟨before, after, hentries, -⟩ := List.lookup_eq_some_iff.mp hlookup
  have hentry : (V.toList.zip values)[before.length]? = some (a, value) := by
    rw [hentries, List.getElem?_append_right (Nat.le_refl _), Nat.sub_self]
    rfl
  exact ⟨before.length, List.getElem?_zip_eq_some.mp hentry⟩

/-! ## 3. Entries -/

/-- An entry of a map is what the map gives. -/
theorem get?_of_mem_entries {m : VariableMap α} {a : Variable} {b : α} (h : (a, b) ∈ m.entries) :
    m.get? a = some b := by
  obtain ⟨before, after, hentries⟩ := List.append_of_mem h
  refine List.lookup_eq_some_iff.mpr ⟨before, after, hentries, ?_⟩
  intro e he
  have hnodup := m.nodup
  rw [hentries, List.map_append, List.nodup_append] at hnodup
  have hne := hnodup.2.2 e.1 (List.mem_map_of_mem he) a List.mem_cons_self
  simpa using Ne.symm hne

/-- The variables of a map, looked up one after another, give its values. -/
theorem filterMap_get?_keys (m : VariableMap α) :
    m.keys.filterMap m.get? = m.entries.map Prod.snd := by
  have hsome : ∀ e ∈ m.entries, (m.get? ∘ Prod.fst) e = (some ∘ Prod.snd) e := fun _ he =>
    get?_of_mem_entries he
  rw [keys, List.filterMap_map, List.filterMap_congr hsome, List.filterMap_eq_map]

end VariableMap
end Sentential
