/-
# Reading is the inverse of writing

The whole texts.  `Formula.parseFront` and `Formula.parse` start the formula reader with no
nesting open, so what the reader reads and where it stops (`Reader.formula_meets`) decides what
they give: `Formula.read_cases` says it once for both, and the rest follows from it.

* `Formula.parseFront_eq_ok_iff`: the formula that a text begins with;
* `Formula.parse_eq_ok_iff`: the formula that a text is;
* `Formula.parse_toString`: every formula that is not nested too deeply is read back;
* `Formula.parseFront_eq_error_iff`: the error of a text that begins with no formula.
-/
import Sentential.Proofs.Formula.Reading

namespace Sentential
namespace Formula

open Reader

/-! ## 1. The two ends of reading a text -/

theorem toList_toString (f : Formula) : (toString f).toList = f.text :=
  String.toList_ofList

/-- With no nesting open, a formula fits if it is not nested too deeply. -/
theorem reads_zero_iff {s r : String} {f : Formula} :
    Reads 0 s.toList f r.toList ↔ s = toString f ++ r ∧ f.depth ≤ maxDepth := by
  rw [Reads, Nat.zero_add, ← toList_toString, ← String.toList_append, String.toList_inj]

/-- **A text is read to the end of a formula, or it stops.**  Only what is left behind the
formula makes a difference between reading the front of a text and reading all of it. -/
theorem read_cases (s : String) :
    (∃ f r, Reads 0 s.toList f r.toList ∧ parseFront s = .ok (f, r) ∧
      parse s = if r = "" then .ok f else .error (.trailingCharacters r)) ∨
    ∃ e, Stops 0 s.toList e ∧ parseFront s = .error e ∧ parse s = .error e := by
  have h := formula_meets s.toList (Nat.zero_le maxDepth)
  unfold parseFront parse
  cases ho : Reader.formula s.toList 0 with
  | ok f rest depth shorter =>
    rw [ho] at h
    refine .inl ⟨f, String.ofList rest, ?_, rfl, ?_⟩
    · rw [String.toList_ofList]
      exact h.2
    · cases rest with
      | nil => rfl
      | cons c cs => rw [if_neg (by simp)]
  | noMatch e rest depth =>
    rw [ho] at h
    exact .inr ⟨e, h.2, rfl, rfl⟩
  | failure e rest depth =>
    rw [ho] at h
    exact .inr ⟨e, h.2, rfl, rfl⟩

/-! ## 2. The texts that are read -/

theorem parseFront_eq_ok_iff {s r : String} {f : Formula} :
    parseFront s = .ok (f, r) ↔ s = toString f ++ r ∧ f.depth ≤ maxDepth := by
  rw [← reads_zero_iff]
  rcases read_cases s with ⟨g, t, hg, hs, -⟩ | ⟨e, he, hs, -⟩
  · rw [hs, Except.ok.injEq, Prod.mk.injEq]
    constructor
    · rintro ⟨rfl, rfl⟩
      exact hg
    · intro hf
      obtain ⟨hgf, hrest⟩ := hg.unique hf
      exact ⟨hgf, String.toList_inj.mp hrest⟩
  · rw [hs]
    exact ⟨(fun h => nomatch h), fun hf => absurd hf (he.not_reads f _)⟩

theorem parse_eq_ok_iff_parseFront {s : String} {f : Formula} :
    parse s = .ok f ↔ parseFront s = .ok (f, "") := by
  rcases read_cases s with ⟨g, r, -, hfront, hs⟩ | ⟨e, -, hfront, hs⟩
  · rw [hfront, hs]
    split <;> simp_all
  · rw [hfront, hs]
    exact ⟨(fun h => nomatch h), (fun h => nomatch h)⟩

theorem parse_eq_ok_iff {s : String} {f : Formula} :
    parse s = .ok f ↔ s = toString f ∧ f.depth ≤ maxDepth := by
  rw [parse_eq_ok_iff_parseFront, parseFront_eq_ok_iff, String.append_empty]

theorem parse_toString {f : Formula} (h : f.depth ≤ maxDepth) : parse (toString f) = .ok f :=
  parse_eq_ok_iff.mpr ⟨rfl, h⟩

/-- **Reading and writing are inverse to each other.**  A text begins with a formula exactly if
it begins with the canonical text of that formula, whatever follows it, and is a formula exactly
if it is that text; the only formulas that are not read are those nested too deeply. -/
theorem reads_exactly_canonical_texts (s r : String) (f : Formula) :
    (parseFront s = .ok (f, r) ↔ s = toString f ++ r ∧ f.depth ≤ maxDepth) ∧
      (parse s = .ok f ↔ s = toString f ∧ f.depth ≤ maxDepth) :=
  ⟨parseFront_eq_ok_iff, parse_eq_ok_iff⟩

/-! ## 3. The texts that are not read -/

theorem parseFront_eq_error_iff {s : String} {e : SyntaxError} :
    parseFront s = .error e ↔ Stops 0 s.toList e := by
  rcases read_cases s with ⟨f, r, hf, hfront, -⟩ | ⟨e', he', hfront, -⟩
  · rw [hfront]
    exact ⟨(fun h => nomatch h), fun he => absurd hf (he.not_reads f _)⟩
  · rw [hfront, Except.error.injEq]
    constructor
    · rintro rfl
      exact he'
    · exact he'.unique

theorem exists_parse_eq_error {s : String}
    (h : ¬ ∃ f : Formula, s = toString f ∧ f.depth ≤ maxDepth) : ∃ e, parse s = .error e := by
  cases hs : parse s with
  | ok f => exact absurd ⟨f, parse_eq_ok_iff.mp hs⟩ h
  | error e => exact ⟨e, rfl⟩

/-- An error of a text that does not begin with a formula is the error of the whole text too. -/
theorem parse_of_stops {s : String} {e : SyntaxError} (he : Stops 0 s.toList e) :
    parse s = .error e := by
  rcases read_cases s with ⟨f, r, hf, -, -⟩ | ⟨e', he', -, hs⟩
  · exact absurd hf (he.not_reads f _)
  · rw [hs, he'.unique he]

end Formula
end Sentential
