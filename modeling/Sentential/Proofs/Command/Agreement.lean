/-
# The commands agree on every answer

An answer can be checked against a reference, typed for a saved exercise that has this reference,
or, if it is a formula, compared with it.  The exercise comes back from the store with the formula
that was saved, the line that was typed is the answer without a carriage return at its end, and
blanks do not count.  So all three say the same.

* `Play.session_line`: what a player sees who types one line for one exercise;
* `commands_agree_on_answers`: checking, playing and comparing.
-/
import Sentential.Proofs.Answer
import Sentential.Proofs.Command.Session
import Sentential.Proofs.Store
import Sentential.Random.WordList

namespace Sentential

/-! ## 1. What is typed -/

namespace Play

/-- **One line for one exercise.**  It is judged as it was typed, and the score is counted. -/
theorem session_line (palette : Palette) (e : Exercise) {answer : String}
    (h : '\n' ∉ answer.toList) :
    session palette [e] (Lines.ofBytes (answer ++ "\n").toUTF8.toList) =
      ⟨legend palette ++ (question palette 1 e ++ reply palette e (e.judge answer)) ++
        scoreLine (points (e.judge answer)) 1, true⟩ := by
  have hjoin : String.join ([answer].map (· ++ "\n")) = answer ++ "\n" := String.empty_append
  have hsession := session_typed palette [e] (List.forall_mem_singleton.mpr h)
  rw [hjoin, List.zip_cons_cons, List.zip_nil_right, transcript_cons, transcript_nil, score_cons,
    String.append_empty, pending_of_length_le (Nat.le_refl 1), String.append_empty] at hsession
  exact hsession

end Play

/-! ## 2. Commands -/

namespace Command

variable {σ : Type} [Source σ]

theorem readTyped_eq {text : String} {f : Formula}
    (hf : Formula.parse (withoutBlanks text) = .ok f) : readTyped text = .ok f := by
  rw [readTyped, hf]
  rfl

theorem run_check (around : Surroundings σ) (place : Place) (answer : String) {reference : String}
    {f : Formula} (hf : Formula.parse (withoutBlanks reference) = .ok f) :
    run around place (.check answer reference) =
      (.success (verdictLine around.palette (judge f (withoutBlanks answer))), place) := by
  rw [run, runCheck, readTyped_eq hf]
  rfl

theorem run_equivalent (around : Surroundings σ) (place : Place) {a b : String} {f g : Formula}
    {same : Bool} (hf : Formula.parse (withoutBlanks a) = .ok f)
    (hg : Formula.parse (withoutBlanks b) = .ok g) (h : f.equivalent g = .ok same) :
    run around place (.equivalent a b) =
      (.success (showEquivalence around.palette f g same), place) := by
  rw [run, runEquivalent, readTyped_eq hf, readTyped_eq hg]
  show (Report.ofExcept ((f.equivalent g).mapError Failure.valueless >>= _), place) = _
  rw [h]
  rfl

/-- A saved exercise is played with the line that is typed. -/
theorem run_play (palette : Palette) (s : σ) (name : String) (size rounds : Nat) {saved : Place}
    {e : Exercise} (hsaved : saved.load = .ok [e]) {answer : String} (h : '\n' ∉ answer.toList) :
    run ⟨palette, s, name, (answer ++ "\n").toUTF8⟩ saved (.play size rounds) =
      (.success (Play.legend palette ++
        (Play.question palette 1 e ++ Play.reply palette e (e.judge answer)) ++
          Play.scoreLine (Play.points (e.judge answer)) 1), saved) := by
  have hplay : exercisesToPlay size rounds s saved = .ok [e] := by
    rw [exercisesToPlay, hsaved]
  rw [run, runPlay]
  simp only [hplay, Play.session_line palette e h]
  rfl

/-- **What a comparison says can be read.** -/
theorem showEquivalence_eq_true_iff (palette : Palette) (f g : Formula) (same : Bool) :
    showEquivalence palette f g same = showEquivalence palette f g true ↔ same = true := by
  refine ⟨fun h => ?_, fun h => h ▸ rfl⟩
  cases same with
  | true => rfl
  | false =>
    exfalso
    have hlist := congrArg String.toList h
    cases palette with
    | plain =>
      have hsigns : " ≁ ".toList = [' ', '≁', ' '] ∧ " ∼ ".toList = [' ', '∼', ' '] := by decide
      simp [showEquivalence, Palette.paint, hsigns] at hlist
    | coloured =>
      have htones : Tone.opening .red = ['\x1b', '[', '3', '1', 'm'] ∧
          Tone.opening .green = ['\x1b', '[', '3', '2', 'm'] := by decide
      simp [showEquivalence, Palette.paint, htones] at hlist

end Command

theorem verdictLine_eq_correct_iff (palette : Palette) (right : Bool) :
    verdictLine palette (.ok right) = verdictLine palette (.ok true) ↔ right = true := by
  refine ⟨fun h => ?_, fun h => h ▸ rfl⟩
  cases right with
  | true => rfl
  | false =>
    have hne : ∀ palette : Palette, verdictLine palette (.ok false) ≠ verdictLine palette (.ok true)
      | .plain => by decide
      | .coloured => by decide
    exact absurd h (hne palette)

/-! ## 3. All together -/

variable {σ : Type} [Source σ]

/-- **The commands agree on every answer.**  A reference is added where there was no store, and an
answer without a line feed is typed for it.  What is written about the answer is the verdict that
checking it writes in the same colours; and if the answer is a formula, comparing it with the
reference, in whichever order, finds them equivalent exactly if the verdict is that it is
correct. -/
theorem commands_agree_on_answers (palette : Palette) (prompt answer reference : String)
    {f : Formula} (hf : Formula.parse (withoutBlanks reference) = .ok f)
    (ha : '\n' ∉ answer.toList) :
    ∃ (verdict : Verdict) (saved : Place), verdict = judge f (withoutBlanks answer) ∧
      (∀ (s : σ) (name : String) (input : ByteArray) (place : Place),
        Command.run ⟨palette, s, name, input⟩ place (.check answer reference) =
          (.success (verdictLine palette verdict), place)) ∧
      (∀ (s : σ) (name : String) (input : ByteArray),
        Command.run ⟨palette, s, name, input⟩ .absent (.add prompt reference) =
          (.success (Command.showAdded palette name ⟨trimBlanks prompt, withoutBlanks reference⟩),
            saved)) ∧
      (∀ (s : σ) (name : String) (size rounds : Nat),
        Command.run ⟨palette, s, name, (answer ++ "\n").toUTF8⟩ saved (.play size rounds) =
          (.success (Play.legend palette ++ (Play.question palette 1 ⟨f, trimBlanks prompt, ∅⟩ ++
            (verdictLine palette verdict ++ "Expected: " ++ palette.paint .green (toString f) ++
              "\n")) ++ Play.scoreLine (Play.points verdict) 1), saved)) ∧
      ∀ g : Formula, Formula.parse (withoutBlanks answer) = .ok g → ∃ same : Bool,
        (∀ (s : σ) (name : String) (input : ByteArray) (place : Place),
          Command.run ⟨palette, s, name, input⟩ place (.equivalent answer reference) =
            (.success (Command.showEquivalence palette g f same), place) ∧
          Command.run ⟨palette, s, name, input⟩ place (.equivalent reference answer) =
            (.success (Command.showEquivalence palette f g same), place)) ∧
        (Command.showEquivalence palette g f same = Command.showEquivalence palette g f true ↔
          verdictLine palette verdict = verdictLine palette (.ok true)) ∧
        (Command.showEquivalence palette f g same = Command.showEquivalence palette f g true ↔
          verdictLine palette verdict = verdictLine palette (.ok true)) := by
  -- the place holds one exercise now, with the formula that the reference is read as
  obtain ⟨saved, hadd, hsaved⟩ := Place.Holds.absent.add prompt hf
  refine ⟨judge f (withoutBlanks answer), saved, rfl, ?_, ?_, ?_, ?_⟩
  · exact fun s name input place => Command.run_check ⟨palette, s, name, input⟩ place answer hf
  · intro s name input
    rw [Command.run, Command.runAdd, hadd]
  · exact fun s name size rounds => Command.run_play palette s name size rounds hsaved.load ha
  · intro g hg
    obtain ⟨same, hgf⟩ : ∃ same, g.equivalent f = .ok same := ⟨_, Formula.equivalent_eq g f⟩
    have hfg : f.equivalent g = .ok same := (Formula.equivalent_comm f g).trans hgf
    have hjudge : judge f (withoutBlanks answer) = .ok same := by
      rw [judge, hg]
      simp only [hgf]
    rw [hjudge, verdictLine_eq_correct_iff]
    exact ⟨same, fun s name input place =>
      ⟨Command.run_equivalent ⟨palette, s, name, input⟩ place hg hf hgf,
        Command.run_equivalent ⟨palette, s, name, input⟩ place hf hg hfg⟩,
      Command.showEquivalence_eq_true_iff palette g f same,
      Command.showEquivalence_eq_true_iff palette f g same⟩

/-- The answer ends with a carriage return, which is lost where it is typed, and has a blank inside;
the prompt ends with a line feed.  It is correct, for it means the same as the reference. -/
theorem agree_on_answer_before_carriage_return :
    let f : Formula := .binary .conditional (.atom (.variable .p)) (.atom (.variable .q))
    let around (input : String) : Surroundings WordList :=
      ⟨.plain, .ofList [], "store", input.toUTF8⟩
    Formula.parse (withoutBlanks "(p -> q)") = .ok f ∧ '\n' ∉ "(~p | q)\r".toList ∧
      Command.run (around "") .absent (.check "(~p | q)\r" "(p -> q)") =
        (.success "Correct!\n", .absent) ∧
      ∃ saved,
        Command.run (around "") .absent (.add "Tea\n" "(p -> q)") =
          (.success "Saved \"Tea\" as (p->q) in store\n", saved) ∧
        Command.run (around "(~p | q)\r\n") saved (.play 2 3) =
          (.success (Play.legend .plain ++ "\n1. Tea\nCorrect!\nExpected: (p->q)\n\nScore: 1/1\n"),
            saved) := by
  intro f around
  have hf : Formula.parse (withoutBlanks "(p -> q)") = .ok f :=
    Formula.parse_eq_ok_iff.mpr (by decide)
  have ha : '\n' ∉ "(~p | q)\r".toList := by decide
  obtain ⟨verdict, saved, hverdict, hcheck, hadd, hplay, -⟩ := commands_agree_on_answers
    (σ := WordList) .plain "Tea\n" "(~p | q)\r" "(p -> q)" hf ha
  have hcorrect : verdict = .ok true := by
    have hg : Formula.parse (withoutBlanks "(~p | q)\r") = .ok (.binary .disjunction
        (.negation (.atom (.variable .p))) (.atom (.variable .q))) :=
      Formula.parse_eq_ok_iff.mpr (by decide)
    obtain ⟨right, hjudge, hright⟩ := judge_of_parse f hg
    rw [hverdict, hjudge, Except.ok.injEq, hright, Formula.sameValues_iff_truth]
    intro σ
    cases hp : σ .p <;> cases hq : σ .q <;>
      simp [f, Formula.truth, BinaryConnective.apply, hp, hq]
  have hprompt : trimBlanks "Tea\n" = "Tea" := by decide
  have hreference : withoutBlanks "(p -> q)" = "(p->q)" := by decide
  subst hcorrect
  rw [hprompt] at hadd hplay
  rw [hreference] at hadd
  have hround : Play.question .plain 1 ⟨f, "Tea", ∅⟩ ++ (verdictLine .plain (.ok true) ++
      "Expected: " ++ Palette.plain.paint .green (toString f) ++ "\n") ++
        Play.scoreLine (Play.points (.ok true)) 1 =
      "\n1. Tea\nCorrect!\nExpected: (p->q)\n\nScore: 1/1\n" := by
    decide +kernel
  refine ⟨hf, ha, hcheck _ _ _ _, saved, hadd _ _ _, (hplay _ _ _ _).trans ?_⟩
  rw [String.append_assoc, hround]

end Sentential
