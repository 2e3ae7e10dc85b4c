/-
# Playing

A session shows one exercise after another, reads a line for each, judges it and shows what was
expected, and ends with the score.  It ends early when the lines do; a line that is no text ends
it without a score.

* `Play.session`: the whole session, from the exercises and the lines.
-/
import Sentential.Command.Palette
import Sentential.Exercise

namespace Sentential

/-- What is written for a judged answer. -/
def verdictLine (palette : Palette) : Verdict → String
  | .ok true => palette.paint .green "Correct!" ++ "\n"
  | .ok false => palette.paint .red "Incorrect." ++ "\n"
  | .error (.malformed e) =>
    palette.paint .yellow "Your answer is malformed:" ++ " " ++ e.message ++ "\n"
  | .error (.valueless e) => palette.paint .red e.message ++ "\n"

/-- What is written about the meaning of the variables. -/
def meaningLines (palette : Palette) (m : Meaning) : String :=
  String.join (m.entries.map fun (letter, s) =>
    "  " ++ palette.paint .cyan letter.name.toString ++ " = " ++ s.text ++ "\n")

namespace Play

/-- The legend at the start of a session. -/
def legend (palette : Palette) : String :=
  "Connectives: " ++ palette.paint .cyan "~" ++ " not, " ++ palette.paint .cyan "&" ++ " and, " ++
    palette.paint .cyan "|" ++ " or, " ++ palette.paint .cyan "->" ++ " implies, " ++
    palette.paint .cyan "<>" ++ " if and only if.\n"

/-- What is written to ask for the answer to an exercise. -/
def question (palette : Palette) (number : Nat) (e : Exercise) : String :=
  "\n" ++ toString number ++ ". " ++ palette.paint .blue e.prompt ++ "\n" ++
    meaningLines palette e.meaning

/-- What is written when the answer to an exercise has been judged. -/
def reply (palette : Palette) (e : Exercise) (verdict : Verdict) : String :=
  verdictLine palette verdict ++ "Expected: " ++ palette.paint .green (toString e.formula) ++ "\n"

/-- What is written at the end. -/
def scoreLine (score total : Nat) : String :=
  "\nScore: " ++ toString score ++ "/" ++ toString total ++ "\n"

/-- The points that a judged answer is worth. -/
def points : Verdict → Nat
  | .ok true => 1
  | _ => 0

/-- The answer on a line of input, if the line is text. -/
def answer? (line : List UInt8) : Option String :=
  String.fromUTF8? ⟨line.toArray⟩

/-- What was written in some rounds, the points that were made, and whether all lines that were
read are text. -/
structure Rounds where
  written : String
  score : Nat
  readable : Bool

/-- Plays exercises that are numbered from `number` up. -/
def rounds (palette : Palette) (number : Nat) : List Exercise → List (List UInt8) → Rounds
  | [], _ => ⟨"", 0, true⟩
  | e :: es, lines =>
    let asked := question palette number e
    match lines with
    | [] => ⟨asked, 0, true⟩
    | line :: lines =>
      match answer? line with
      | none => ⟨asked, 0, false⟩
      | some answer =>
        let verdict := e.judge answer
        let later := rounds palette (number + 1) es lines
        ⟨asked ++ reply palette e verdict ++ later.written, points verdict + later.score,
          later.readable⟩

/-- What was written in a session, and whether all lines that were read are text. -/
structure Session where
  written : String
  readable : Bool

/-- Plays exercises with the lines of a reader. -/
def session (palette : Palette) (exercises : List Exercise) (lines : List (List UInt8)) :
    Session :=
  let played := rounds palette 1 exercises lines
  let ending := if played.readable then scoreLine played.score exercises.length else ""
  ⟨legend palette ++ played.written ++ ending, played.readable⟩

end Play
end Sentential
