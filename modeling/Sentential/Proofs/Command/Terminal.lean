/-
# A terminal shows what a session writes

A session on a terminal takes one line after another off what is typed.  What a line is does not
depend on what is typed behind it (`Lines.split_firstLine`).  So the lines are those of everything
that is typed, and what a terminal in memory has shown in the end is what the command reports that
is given all the bytes at once.

* `Terminal.memory_nextLine?`: the lines are taken in their order;
* `Terminal.memory_playRounds`: some rounds, by induction on the exercises;
* `Terminal.memory_play`: the whole command.
-/
import Sentential.Command.Terminal
import Sentential.Proofs.Text.Lines

namespace Sentential

/-! ## 1. A terminal in memory -/

namespace Terminal

/-- What has been shown so far, and what will be typed. -/
structure Memory where
  shown : String
  input : List UInt8

/-- A terminal in memory. -/
def memory : Terminal (StateM Memory) where
  print text := modify fun s => { s with shown := s.shown ++ text }
  typed := modifyGet fun s =>
    ((Lines.firstLine 10 s.input).1, { s with input := (Lines.firstLine 10 s.input).2 })

theorem run_bind {α β : Type} {s s' : Memory} {a : α} {x : StateM Memory α} (h : x.run s = (a, s'))
    (next : α → StateM Memory β) : (x >>= next).run s = (next a).run s' := by
  rw [StateT.run_bind, h]
  rfl

theorem memory_print (text shown : String) (input : List UInt8) :
    (memory.print text).run ⟨shown, input⟩ = ((), ⟨shown ++ text, input⟩) := rfl

theorem memory_nextLine? (shown : String) (input : List UInt8) :
    memory.nextLine?.run ⟨shown, input⟩ =
      ((Lines.ofBytes input).head?, ⟨shown, (Lines.firstLine 10 input).2⟩) :=
  congrArg (·, Memory.mk shown (Lines.firstLine 10 input).2) (Lines.split_firstLine 10 13 input).1

/-! ## 2. Playing on it -/

variable (palette : Palette)

/-- **Some rounds**, whatever was shown before and whatever is typed. -/
theorem memory_playRounds (es : List Exercise) (number score : Nat) (shown : String)
    (input : List UInt8) :
    ∃ rest, (memory.playRounds palette number score es).run ⟨shown, input⟩ =
      let played := Play.rounds palette number es (Lines.ofBytes input)
      (if played.readable then some (score + played.score) else none,
        ⟨shown ++ played.written, rest⟩) := by
  induction es generalizing number score shown input with
  | nil =>
    refine ⟨input, ?_⟩
    simp only [Play.rounds, String.append_empty, Nat.add_zero, if_true]
    rfl
  | cons e es ih =>
    have hlater : Lines.ofBytes (Lines.firstLine 10 input).2 = (Lines.ofBytes input).tail :=
      (Lines.split_firstLine 10 13 input).2
    rw [playRounds, run_bind (memory_print ..), run_bind (memory_nextLine? ..)]
    generalize (Lines.firstLine 10 input).2 = later at hlater ⊢
    cases hlines : Lines.ofBytes input with
    | nil => exact ⟨later, rfl⟩
    | cons line lines =>
      rw [hlines, List.tail_cons] at hlater
      rw [Play.rounds]
      simp only [List.head?_cons]
      cases Play.answer? line with
      | none => exact ⟨later, rfl⟩
      | some answer =>
        -- the other rounds start with what this one has shown and scored
        have hrounds := ih (number + 1) (score + Play.points (e.judge answer))
          (shown ++ Play.question palette number e ++ Play.reply palette e (e.judge answer)) later
        rw [hlater] at hrounds
        simp only [run_bind (memory_print ..)]
        simpa only [String.append_assoc, Nat.add_assoc] using hrounds

/-- **A session.** -/
theorem memory_playSession (es : List Exercise) (shown : String) (input : List UInt8) :
    ∃ rest, (memory.playSession palette es).run ⟨shown, input⟩ =
      let session := Play.session palette es (Lines.ofBytes input)
      (session.readable, ⟨shown ++ session.written, rest⟩) := by
  obtain ⟨rest, hrounds⟩ := memory_playRounds palette es 1 0 (shown ++ Play.legend palette) input
  refine ⟨rest, ?_⟩
  rw [playSession, run_bind (memory_print ..), run_bind hrounds, Play.session]
  -- there is a score if all lines that were read are text
  rcases Play.rounds palette 1 es (Lines.ofBytes input) with ⟨written, score, _ | _⟩
  · simp only [String.append_assoc, Bool.false_eq_true, if_false, String.append_empty]
    rfl
  · simp only [run_bind (memory_print ..), Nat.zero_add, String.append_assoc, if_true]
    rfl

/-- **A terminal shows what the command reports**, if it is given the same bytes. -/
theorem memory_play {σ : Type} [Source σ] (around : Surroundings σ) (place : Place)
    (size rounds : Nat) :
    ∃ rest, (memory.play around place size rounds).run ⟨"", around.input.toList⟩ =
      let report := Command.runPlay around place size rounds
      (report.failure?, ⟨report.written, rest⟩) := by
  rw [play, Command.runPlay]
  cases Command.exercisesToPlay size rounds around.source place with
  | error f => exact ⟨around.input.toList, rfl⟩
  | ok es =>
    obtain ⟨rest, hsession⟩ := memory_playSession around.palette es "" around.input.toList
    refine ⟨rest, ?_⟩
    simp only [run_bind hsession, String.empty_append]
    rfl

end Terminal
end Sentential
