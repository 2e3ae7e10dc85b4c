/-
# Formulas written one behind the other

The text of a formula says where it ends, so nothing needs to stand between two of them.  No other
formula begins the same text, however deeply it is nested: what `Formula.parseFront` finds at the
front is the only formula there, and formulas whose texts are joined are read apart again.

* `Formula.toString_append_inj`: unique readability, for whole texts;
* `Formula.parseAll`: one formula is taken off the front again and again;
* `Formula.whole_parseSeries`: this is what a series of formulas is read as;
* `Formula.joined_texts_are_read_apart`: joined texts give back the formulas they are made of.
-/
import Sentential.Proofs.Formula.RoundTrip

namespace Sentential
namespace Formula

variable {f g : Formula} {s t r : String}

/-! ## 1. The front of a text -/

theorem toString_append_inj (h : toString f ++ s = toString g ++ t) : f = g ∧ s = t := by
  have hlist : f.text ++ s.toList = g.text ++ t.toList := by
    rw [← toList_toString, ← toList_toString, ← String.toList_append, ← String.toList_append, h]
  obtain ⟨hfg, hst⟩ := text_append_inj hlist
  exact ⟨hfg, String.toList_inj.mp hst⟩

theorem toString_append_ne_empty (f : Formula) (s : String) : toString f ++ s ≠ "" := by
  intro h
  have hlist := congrArg String.toList h
  rw [String.toList_append, toList_toString] at hlist
  exact f.text_ne_nil (List.append_eq_nil_iff.mp hlist).1

theorem parseFront_append (hf : f.depth ≤ maxDepth) (s : String) :
    parseFront (toString f ++ s) = .ok (f, s) :=
  parseFront_eq_ok_iff.mpr ⟨rfl, hf⟩

theorem ne_empty_of_parseFront (h : parseFront s = .ok (f, r)) : s ≠ "" := by
  obtain ⟨rfl, -⟩ := parseFront_eq_ok_iff.mp h
  exact toString_append_ne_empty f r

theorem length_lt_of_parseFront (h : parseFront s = .ok (f, r)) : r.length < s.length := by
  obtain ⟨rfl, -⟩ := parseFront_eq_ok_iff.mp h
  have hpos : 0 < f.text.length := List.length_pos_iff.mpr f.text_ne_nil
  rw [← String.length_toList, ← String.length_toList, String.toList_append, List.length_append,
    toList_toString]
  omega

/-! ## 2. One formula after another -/

/-- The formulas that a text consists of: one is taken off the front until nothing is left. -/
def parseAll (s : String) : Except SyntaxError (List Formula) :=
  if s = "" then .ok []
  else
    match h : parseFront s with
    | .error e => .error e
    | .ok (f, r) =>
      have : r.length < s.length := length_lt_of_parseFront h
      (parseAll r).map (f :: ·)
termination_by s.length

theorem parseAll_empty : parseAll "" = .ok [] := by
  rw [parseAll, if_pos rfl]

theorem parseAll_of_parseFront (h : parseFront s = .ok (f, r)) :
    parseAll s = (parseAll r).map (f :: ·) := by
  rw [parseAll, if_neg (ne_empty_of_parseFront h)]
  split
  · next e he =>
    rw [h] at he
    cases he
  · next g t hg =>
    rw [h] at hg
    cases hg
    rfl

theorem parseAll_of_parseFront_error {e : SyntaxError} (hs : s ≠ "")
    (h : parseFront s = .error e) : parseAll s = .error e := by
  rw [parseAll, if_neg hs]
  split
  · next e' he =>
    rw [h] at he
    cases he
    rfl
  · next g t hg =>
    rw [h] at hg
    cases hg

/-! ## 3. Series -/

/-- The formulas of a series that ended with its text. -/
def Series.whole (series : Series) : Except SyntaxError (List Formula) :=
  match series.error? with
  | some e => .error e
  | none => .ok (series.formulas.map Prod.fst)

/-- A series is the formula at the front and the series behind it. -/
theorem parseSeries_of_parseFront (h : parseFront s = .ok (f, r)) :
    parseSeries s =
      if r = "" then ⟨[(f, "")], none⟩
      else ⟨(f, r) :: (parseSeries r).formulas, (parseSeries r).error?⟩ := by
  unfold parseFront at h
  unfold parseSeries
  rw [readSeries]
  split at h
  · next g rest depth shorter ho =>
    cases h
    rw [ho]
    cases rest with
    | nil => rfl
    | cons c cs => rw [if_neg (by simp), String.toList_ofList]
  · cases h
  · cases h

theorem parseSeries_of_parseFront_error {e : SyntaxError} (h : parseFront s = .error e) :
    parseSeries s = ⟨[], some e⟩ := by
  unfold parseFront at h
  unfold parseSeries
  rw [readSeries]
  split at h
  · cases h
  · next e' rest depth ho =>
    cases h
    rw [ho]
  · next e' rest depth ho =>
    cases h
    rw [ho]

theorem Series.whole_cons (f : Formula) (r : String) (series : Series) :
    Series.whole ⟨(f, r) :: series.formulas, series.error?⟩ = series.whole.map (f :: ·) := by
  unfold Series.whole
  cases series.error? <;> rfl

/-- **A series is read by taking formulas off the front.**  The empty text is left out: a series
has a first formula. -/
theorem whole_parseSeries (hs : s ≠ "") : (parseSeries s).whole = parseAll s := by
  induction s using parseAll.induct with
  | case1 => exact absurd rfl hs
  | case2 s _ e h =>
    rw [parseSeries_of_parseFront_error h, parseAll_of_parseFront_error hs h]
    rfl
  | case3 s _ f r h _ ih =>
    rw [parseSeries_of_parseFront h, parseAll_of_parseFront h]
    split
    · next hr =>
      rw [hr, parseAll_empty]
      rfl
    · next hr => rw [Series.whole_cons, ih hr]

/-! ## 4. Joined texts -/

/-- The texts of formulas, one right behind the other. -/
def joinedTexts : List Formula → String
  | [] => ""
  | f :: fs => toString f ++ joinedTexts fs

theorem parseAll_joinedTexts {fs : List Formula} (h : ∀ f ∈ fs, f.depth ≤ maxDepth) :
    parseAll (joinedTexts fs) = .ok fs := by
  induction fs with
  | nil => exact parseAll_empty
  | cons f fs ih =>
    have hfront := parseFront_append (h f List.mem_cons_self) (joinedTexts fs)
    rw [joinedTexts, parseAll_of_parseFront hfront,
      ih fun g hg => h g (List.mem_cons_of_mem f hg)]
    rfl

theorem joinedTexts_ne_empty {fs : List Formula} (h : fs ≠ []) : joinedTexts fs ≠ "" := by
  cases fs with
  | nil => exact absurd rfl h
  | cons f fs => exact toString_append_ne_empty f _

/-- **Formulas need nothing between them.**  A text that begins with a formula, nested however
deeply, begins with no other one, so no formula's text is the beginning of another's and what is
read off the front is the only formula there.  Hence texts that are joined are read apart again,
as long as none of the formulas is nested too deeply to be read at all. -/
theorem joined_texts_are_read_apart :
    (∀ (f g : Formula) (s t : String), toString f ++ s = toString g ++ t → f = g ∧ s = t) ∧
    (∀ (f g : Formula) (t : String), toString g = toString f ++ t → f = g ∧ t = "") ∧
    (∀ (s r : String) (f : Formula), parseFront s = .ok (f, r) →
      ∀ (g : Formula) (t : String), s = toString g ++ t → g = f ∧ t = r) ∧
    ∀ fs : List Formula, (∀ f ∈ fs, f.depth ≤ maxDepth) →
      parseAll (joinedTexts fs) = .ok fs ∧
        (fs ≠ [] → (parseSeries (joinedTexts fs)).whole = .ok fs) := by
  refine ⟨fun f g s t => toString_append_inj, ?_, ?_, ?_⟩
  · intro f g t h
    have hempty : toString f ++ t = toString g ++ "" := by rw [String.append_empty, h]
    exact toString_append_inj hempty
  · intro s r f hread g t hg
    obtain ⟨hs, -⟩ := parseFront_eq_ok_iff.mp hread
    exact toString_append_inj (hg.symm.trans hs)
  · intro fs hdepth
    have hall := parseAll_joinedTexts hdepth
    exact ⟨hall, fun hne => (whole_parseSeries (joinedTexts_ne_empty hne)).trans hall⟩

/-- A constant, a letter and a parenthesis in a row are told apart. -/
theorem apart_behind_negated_constant :
    (∀ (g : Formula) (t : String), "~~Tp(p->~q)" = toString g ++ t →
      g = .negation (.negation (.atom (.constant true))) ∧ t = "p(p->~q)") ∧
    parseAll "~~Tp(p->~q)" = .ok [.negation (.negation (.atom (.constant true))),
      .atom (.variable .p), .binary .conditional (.atom (.variable .p))
        (.negation (.atom (.variable .q)))] ∧
    (parseSeries "~~Tp(p->~q)").whole = .ok [.negation (.negation (.atom (.constant true))),
      .atom (.variable .p), .binary .conditional (.atom (.variable .p))
        (.negation (.atom (.variable .q)))] := by
  obtain ⟨-, -, hfront, hjoined⟩ := joined_texts_are_read_apart
  have hread : parseFront "~~Tp(p->~q)" =
      .ok (.negation (.negation (.atom (.constant true))), "p(p->~q)") :=
    parseFront_eq_ok_iff.mpr ⟨by decide, by decide⟩
  obtain ⟨hall, hseries⟩ := hjoined [.negation (.negation (.atom (.constant true))),
    .atom (.variable .p), .binary .conditional (.atom (.variable .p))
      (.negation (.atom (.variable .q)))] (by decide)
  exact ⟨hfront _ _ _ hread, hall, hseries (by decide)⟩

end Formula
end Sentential
