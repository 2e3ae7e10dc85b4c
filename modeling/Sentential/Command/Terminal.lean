/-
# Playing on a terminal

Somebody who plays sees a question before the answer to it is typed, so a session that is held with
somebody cannot wait for all the lines that a `Play.session` is given.  It asks a terminal for each
of them.  What is done to show a text or to wait for one depends on the terminal, and so does the
monad in which it is done; everything else is the same for all of them.

* `Terminal.play`: the exercises of a store, or random ones, played on a terminal.
-/
import Sentential.Command

namespace Sentential

/-- Where texts are shown and lines are typed. -/
structure Terminal (m : Type → Type) where
  /-- Shows a text. -/
  print : String → m Unit
  /-- What is typed up to the next line feed, and with it, or up to the end. -/
  typed : m (List UInt8)

namespace Terminal

variable {m : Type → Type} [Monad m] (terminal : Terminal m)

/-- The next line that is typed; none at the end. -/
def nextLine? : m (Option (List UInt8)) := do
  return (Lines.ofBytes (← terminal.typed)).head?

/-- Plays exercises that are numbered from `number` up, and gives the points with those that were
made before; none if a line is no text. -/
def playRounds (palette : Palette) (number score : Nat) : List Exercise → m (Option Nat)
  | [] => return some score
  | e :: es => do
    terminal.print (Play.question palette number e)
    match ← terminal.nextLine? with
    | none => return some score
    | some line =>
      match Play.answer? line with
      | none => return none
      | some answer =>
        let verdict := e.judge answer
        terminal.print (Play.reply palette e verdict)
        playRounds palette (number + 1) (score + Play.points verdict) es

/-- Plays exercises, and says whether all lines that were read are text. -/
def playSession (palette : Palette) (es : List Exercise) : m Bool := do
  terminal.print (Play.legend palette)
  match ← terminal.playRounds palette 1 0 es with
  | some score =>
    terminal.print (Play.scoreLine score es.length)
    return true
  | none => return false

/-- Plays the exercises of the store, or random ones, and gives the failure if there is one.  The
input that is found around the command is not used: the terminal is asked instead. -/
def play {σ : Type} [Source σ] (around : Surroundings σ) (place : Place) (size rounds : Nat) :
    m (Option Failure) := do
  match Command.exercisesToPlay size rounds around.source place with
  | .error f => return some f
  | .ok es =>
    let readable ← terminal.playSession around.palette es
    return if readable then none else some .unreadable

end Terminal
end Sentential
