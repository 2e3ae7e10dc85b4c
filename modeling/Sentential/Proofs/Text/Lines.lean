/-
# Appending to a text

What is appended to a text goes on with its open line, the one behind the last line feed.  A text
that is empty or ends with a line feed has an empty one, so whatever is appended to it starts a
line of its own.  Carriage returns in front of the line feeds make no difference.

* `Lines.split_eq`: the lines of a text are those that are ended and the open one;
* `Lines.split_append_line`: a line appended to any text;
* `Lines.Closed.split_append`: any text appended to one whose lines are all ended;
* `Lines.split_joined`: the lines of a text that was put together from lines;
* `Lines.split_withReturns`: the lines of a text whose line feeds are turned into pairs;
* `Lines.split_firstLine`: the first line of a text is read without what follows it.
-/
import Mathlib.Data.List.DropRight
import Sentential.Text.Lines

namespace Sentential
namespace Lines

variable {α : Type} {stop lf cr : α}

/-! ## 1. Open lines -/

/-- Nothing follows the last `stop`. -/
def Closed (stop : α) (s : List α) : Prop := s = [] ∨ ∃ t, s = t ++ [stop]

theorem Closed.append_stop (stop : α) (s : List α) : Closed stop (s ++ [stop]) :=
  .inr ⟨s, rfl⟩

variable [DecidableEq α]

/-- What stands behind the last line feed. -/
def openLine (lf : α) (s : List α) : List α := s.rtakeWhile (· != lf)

theorem Closed.openLine_eq_nil {s : List α} (h : Closed lf s) : openLine lf s = [] := by
  rcases h with rfl | ⟨t, rfl⟩
  · rfl
  · rw [openLine, List.rtakeWhile_concat_neg]
    simp

theorem cut_snd (stop : α) (s : List α) : (cut stop s).2 = openLine stop s := by
  induction s using List.reverseRecOn with
  | nil => rfl
  | append_singleton s c ih =>
    by_cases hc : c = stop
    · rw [hc, cut_append_stop, openLine, List.rtakeWhile_concat_neg]
      simp
    · rw [cut_append_of_not_mem (by simpa using Ne.symm hc), ih, openLine, openLine,
        List.rtakeWhile_concat_pos]
      simpa using hc

/-- A text without a `stop` is one open piece. -/
theorem cut_of_notMem {s : List α} (h : stop ∉ s) : cut stop s = ([], s) :=
  cut_append_of_not_mem h []

theorem openLine_append_cons {t : List α} (h : stop ∉ t) (s : List α) :
    openLine stop (s ++ stop :: t) = t := by
  rw [← cut_snd, cut_append_cons, cut_of_notMem h]

/-! ## 2. Final carriage returns -/

theorem dropFinal_concat (c : α) (s : List α) : dropFinal c (s ++ [c]) = s := by
  rw [dropFinal, if_pos List.getLast?_concat, List.dropLast_concat]

theorem dropFinal_of_notMem {c : α} {t : List α} (ht : t ≠ []) (h : c ∉ t) (s : List α) :
    dropFinal c (s ++ t) = s ++ t := by
  rw [dropFinal, if_neg]
  intro hlast
  rw [List.getLast?_append_of_ne_nil _ ht] at hlast
  exact h (List.mem_of_getLast? hlast)

theorem dropFinal_eq_self {c : α} {s : List α} (h : c ∉ s) : dropFinal c s = s :=
  if_neg fun hlast => h (List.mem_of_getLast? hlast)

/-! ## 3. Ended lines -/

/-- The lines that a line feed ends. -/
def ended (lf cr : α) (s : List α) : List (List α) := (cut lf s).1.map (dropFinal cr)

theorem length_ended (lf cr : α) (s : List α) : (ended lf cr s).length = s.count lf := by
  rw [ended, List.length_map]
  induction s using List.reverseRecOn with
  | nil => rfl
  | append_singleton s c ih =>
    by_cases hc : c = lf
    · rw [hc, cut_append_stop, List.length_append, ih, List.count_append, List.count_singleton_self]
      rfl
    · rw [cut_append_of_not_mem (by simpa using Ne.symm hc), ih, List.count_append,
        List.count_singleton, beq_eq_false_iff_ne.mpr hc]
      rfl

/-! ## 4. Lines -/

/-- The lines of a text are those that are ended and the open one, unless it is empty. -/
theorem split_eq (lf cr : α) (s : List α) :
    split lf cr s =
      ended lf cr s ++ if (openLine lf s).isEmpty then [] else [openLine lf s] := by
  rw [← cut_snd]
  rfl

/-- **What is appended to a text goes on with the open line.** -/
theorem split_append_line {line : List α} {c : α} (hlf : lf ∉ line) (hlast : c ∈ line.getLast?)
    (hcr : c ≠ cr) (s : List α) :
    split lf cr (s ++ (line ++ [lf])) = ended lf cr s ++ [openLine lf s ++ line] := by
  have hdrop : dropFinal cr (openLine lf s ++ line) = openLine lf s ++ line := by
    rw [dropFinal, if_neg]
    rw [List.getLast?_append, Option.mem_def.mp hlast]
    simpa using hcr
  rw [← List.append_assoc, split, cut_append_stop, cut_append_of_not_mem hlf, cut_snd]
  simp [ended, hdrop]

/-- **What is appended to ended lines has lines of its own.** -/
theorem Closed.split_append {s : List α} (h : Closed lf s) (cr : α) (t : List α) :
    split lf cr (s ++ t) = split lf cr s ++ split lf cr t := by
  rcases h with rfl | ⟨u, rfl⟩
  · rfl
  · rw [List.append_assoc, List.singleton_append, split, cut_append_cons, split, cut_append_stop,
      split]
    simp

theorem Closed.length_split {s : List α} (h : Closed lf s) (cr : α) :
    (split lf cr s).length = s.count lf := by
  rw [split_eq, h.openLine_eq_nil, List.length_append, length_ended]
  rfl

/-- A line without a line feed of its own loses a carriage return at its end. -/
theorem split_line {line : List α} (h : lf ∉ line) (cr : α) :
    split lf cr (line ++ [lf]) = [dropFinal cr line] := by
  rw [split, cut_append_stop, cut_of_notMem h]
  rfl

/-- A text without line feeds is at most one line. -/
theorem split_of_notMem {s : List α} (h : lf ∉ s) (cr : α) :
    split lf cr s = if s.isEmpty then [] else [s] := by
  rw [split, cut_of_notMem h]
  rfl

/-- **Lines that are put together are taken apart again.** -/
theorem split_joined {lines : List (List α)} (h : ∀ line ∈ lines, lf ∉ line) (cr : α) :
    split lf cr (lines.flatMap (· ++ [lf])) = lines.map (dropFinal cr) := by
  induction lines with
  | nil => rfl
  | cons line lines ih =>
    obtain ⟨hline, hlines⟩ := List.forall_mem_cons.mp h
    rw [List.flatMap_cons, (Closed.append_stop lf line).split_append, split_line hline,
      ih hlines, List.singleton_append, List.map_cons]

/-- Without carriage returns nothing is lost. -/
theorem split_joined_eq_self {lines : List (List α)} (hlf : ∀ line ∈ lines, lf ∉ line)
    (hcr : ∀ line ∈ lines, cr ∉ line) : split lf cr (lines.flatMap (· ++ [lf])) = lines := by
  rw [split_joined hlf]
  refine (List.map_congr_left ?_).trans (List.map_id lines)
  intro line hline
  exact dropFinal_eq_self (hcr line hline)

/-! ## 5. Line feeds turned into pairs -/

/-- The text with a carriage return put in front of every line feed. -/
def withReturns (lf cr : α) (s : List α) : List α :=
  s.flatMap fun c => if c = lf then [cr, lf] else [c]

theorem withReturns_cons (lf cr c : α) (s : List α) :
    withReturns lf cr (c :: s) =
      (if c = lf then [cr, lf] else [c]) ++ withReturns lf cr s :=
  List.flatMap_cons

/-- Every piece that a line feed ends gets the carriage return. -/
theorem cut_withReturns (hne : cr ≠ lf) (s : List α) :
    cut lf (withReturns lf cr s) = ((cut lf s).1.map (· ++ [cr]), (cut lf s).2) := by
  induction s with
  | nil => rfl
  | cons c s ih =>
    rw [withReturns_cons]
    split
    · next hc => simp [cut_cons, ih, push, hne, hc]
    · next hc =>
      rw [List.singleton_append, cut_cons, cut_cons, ih, push, push, if_neg hc, if_neg hc]
      cases (cut lf s).1 <;> rfl

theorem mem_of_mem_cut {c : α} {piece s : List α} (hpiece : piece ∈ (cut stop s).1)
    (hc : c ∈ piece) : c ∈ s := by
  induction s generalizing piece with
  | nil => cases hpiece
  | cons d s ih =>
    rw [cut_cons, push] at hpiece
    split at hpiece
    · rcases List.mem_cons.mp hpiece with rfl | hpiece
      · cases hc
      · exact List.mem_cons_of_mem d (ih hpiece hc)
    · split at hpiece
      · cases hpiece
      · next first rest hcut =>
        rw [hcut] at ih
        rcases List.mem_cons.mp hpiece with rfl | hpiece
        · rcases List.mem_cons.mp hc with rfl | hc
          · exact List.mem_cons_self
          · exact List.mem_cons_of_mem d (ih List.mem_cons_self hc)
        · exact List.mem_cons_of_mem d (ih (List.mem_cons_of_mem first hpiece) hc)

/-- **The carriage returns belong to the line ends.**  They are dropped again, as long as the text
had none of its own. -/
theorem split_withReturns (hne : cr ≠ lf) {s : List α} (hcr : cr ∉ s) :
    split lf cr (withReturns lf cr s) = split lf cr s := by
  have hdrop : ∀ piece ∈ (cut lf s).1, dropFinal cr (piece ++ [cr]) = dropFinal cr piece := by
    intro piece hpiece
    rw [dropFinal_concat, dropFinal_eq_self fun hc => hcr (mem_of_mem_cut hpiece hc)]
  rw [split, split, cut_withReturns hne]
  simp only [List.map_map, Function.comp_def]
  rw [List.map_congr_left hdrop]

/-! ## 6. One line at a time -/

/-- A text up to its first line feed, and with it, and what follows. -/
def firstLine (lf : α) : List α → List α × List α
  | [] => ([], [])
  | c :: s => if c = lf then ([c], s) else (c :: (firstLine lf s).1, (firstLine lf s).2)

theorem firstLine_of_notMem {s : List α} (h : lf ∉ s) : firstLine lf s = (s, []) := by
  induction s with
  | nil => rfl
  | cons c s ih =>
    obtain ⟨hc, hs⟩ := not_or.mp (List.mem_cons.not.mp h)
    rw [firstLine, if_neg (Ne.symm hc), ih hs]

theorem firstLine_append_cons {t : List α} (h : lf ∉ t) (s : List α) :
    firstLine lf (t ++ lf :: s) = (t ++ [lf], s) := by
  induction t with
  | nil => rw [List.nil_append, firstLine, if_pos rfl]; rfl
  | cons c t ih =>
    obtain ⟨hc, ht⟩ := not_or.mp (List.mem_cons.not.mp h)
    rw [List.cons_append, firstLine, if_neg (Ne.symm hc), ih ht]
    rfl

/-- **The first line is read without what follows it**, and what follows has the other lines. -/
theorem split_firstLine (lf cr : α) (s : List α) :
    (split lf cr (firstLine lf s).1).head? = (split lf cr s).head? ∧
      split lf cr (firstLine lf s).2 = (split lf cr s).tail := by
  by_cases h : lf ∈ s
  · obtain ⟨t, u, rfl, ht⟩ := List.eq_append_cons_of_mem h
    have hsplit : split lf cr (t ++ lf :: u) = dropFinal cr t :: split lf cr u := by
      rw [List.append_cons, (Closed.append_stop lf t).split_append, split_line ht,
        List.singleton_append]
    rw [firstLine_append_cons ht, hsplit, split_line ht]
    exact ⟨rfl, rfl⟩
  · rw [firstLine_of_notMem h, split_of_notMem h]
    refine ⟨rfl, ?_⟩
    cases s <;> rfl

end Lines
end Sentential
