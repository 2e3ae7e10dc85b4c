/-
# The exercise store

Exercises that somebody wrote, one record a line in one file.  `Place` is all that the store
depends on: what is at the path of the file.  Loading reads it and adding appends one line to it.
Any file that is there can be read, and takes all that is appended to it: files that may not be
opened, and faults while bytes are read or written, as on a full disk, are left out.

* `Place.load`: the exercises, or what is wrong with the first line that holds none;
* `Place.add`: what became of adding an exercise, and the place afterwards.
-/
import Sentential.Exercise
import Sentential.Record.Line
import Sentential.Text.Lines

namespace Sentential

/-! ## 1. Places -/

/-- What is at the path of the store. -/
inductive Place where
  /-- Nothing yet; a file can be made there. -/
  | absent
  /-- A file with the given bytes. -/
  | file (bytes : ByteArray)
  /-- A directory. -/
  | directory
  /-- Nothing, in a directory that does not exist. -/
  | orphaned
  /-- Nothing, since what should be its directory is a file. -/
  | belowFile

/-- Why the store cannot be accessed. -/
inductive AccessError where
  | isDirectory
  | notFound
  | notDirectory
  | invalidText
deriving DecidableEq

/-- The error in words. -/
def AccessError.message : AccessError → String
  | .isDirectory => "Is a directory (os error 21)"
  | .notFound => "No such file or directory (os error 2)"
  | .notDirectory => "Not a directory (os error 20)"
  | .invalidText => "stream did not contain valid UTF-8"

/-- Why the store cannot be loaded, or an exercise cannot be added to it. -/
inductive StoreError where
  | access (error : AccessError)
  | badRecord (line : Nat) (fault : Json.Fault)
  | corrupted (line : Nat) (error : SyntaxError)
  | invalidFormula (error : SyntaxError)
deriving DecidableEq

/-- What is wrong with a line, in words, behind its number.  The words are this library's own.  A
reader of JSON has a message of its own, with what it expected and the column, but no more of a
fault is kept here than its kind. -/
def faultMessage : Json.Fault → String
  | .unfinished => "the line ends too early"
  | .illFormed => "the line is not JSON"
  | .unsuitable => "the line is not a record"

/-- The error in words. -/
def StoreError.message : StoreError → String
  | .access e => "cannot access the exercise store: " ++ e.message
  | .badRecord line fault => s!"malformed exercise record on line {line}: " ++ faultMessage fault
  | .corrupted line e => s!"exercise on line {line} has a corrupted formula: " ++ e.message
  | .invalidFormula e => "not a well-formed formula: " ++ e.message

/-! ## 2. Loading -/

/-- The exercise on the line with the given number. -/
def exerciseOfLine (number : Nat) (line : List Char) : Except StoreError Exercise :=
  match Record.ofLine line with
  | .error fault => .error (.badRecord number fault)
  | .ok r =>
    match Exercise.ofRecord r with
    | .error e => .error (.corrupted number e)
    | .ok e => .ok e

/-- The exercises on lines that are numbered from `number` up.  Blank lines hold none. -/
def exercisesOfLines (number : Nat) : List (List Char) → Except StoreError (List Exercise)
  | [] => .ok []
  | line :: lines =>
    if line.all isBlank then exercisesOfLines (number + 1) lines
    else
      match exerciseOfLine number line with
      | .error e => .error e
      | .ok e => (exercisesOfLines (number + 1) lines).map (e :: ·)

/-- The exercises in the text of a store. -/
def exercisesOfText (text : String) : Except StoreError (List Exercise) :=
  exercisesOfLines 1 (Lines.ofText text.toList)

/-- The exercises in the bytes of a store. -/
def exercisesOfBytes (bytes : ByteArray) : Except StoreError (List Exercise) :=
  match String.fromUTF8? bytes with
  | none => .error (.access .invalidText)
  | some text => exercisesOfText text

namespace Place

/-- The exercises in the store.  Where nothing is there are none. -/
def load : Place → Except StoreError (List Exercise)
  | .absent => .ok []
  | .file bytes => exercisesOfBytes bytes
  | .directory => .error (.access .isDirectory)
  | .orphaned => .ok []
  | .belowFile => .error (.access .notDirectory)

/-! ## 3. Adding -/

/-- The place with a text appended to its file, which is made if need be.  It fails if there can be
no file.  That only a part of the text is written is left out. -/
def append (text : String) : Place → Except AccessError Place
  | .absent => .ok (.file text.toUTF8)
  | .file bytes => .ok (.file (bytes ++ text.toUTF8))
  | .directory => .error .isDirectory
  | .orphaned => .error .notFound
  | .belowFile => .error .notDirectory

/-- Adds an exercise.  The prompt is kept without the blanks at its ends, and the formula, read
without its blanks, in canonical form.  If anything is wrong the place stays as it is: what can be
wrong is the formula, or that there can be no file, and both show before anything is written. -/
def add (place : Place) (prompt formula : String) : Except StoreError Record × Place :=
  match Formula.parse (withoutBlanks formula) with
  | .error e => (.error (.invalidFormula e), place)
  | .ok f =>
    let r : Record := ⟨trimBlanks prompt, toString f⟩
    match place.append (String.ofList (r.line ++ ['\n'])) with
    | .error e => (.error (.access e), place)
    | .ok place => (.ok r, place)

/-- The bytes of the file, if there is one. -/
def bytes? : Place → Option ByteArray
  | .file bytes => some bytes
  | _ => none

end Place
end Sentential
