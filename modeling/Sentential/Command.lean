/-
# Commands

What somebody may ask for, and what becomes of it: the text written, the failure if there was
one, and the place of the store afterwards.  Only a command that adds an exercise changes it.  What
is written can always be shown: a closed or broken output is left out.

* `Command.run`: one command on one store.
-/
import Sentential.Command.Play
import Sentential.Formula.Drawing
import Sentential.Store
import Sentential.TruthTable

namespace Sentential

/-- What is asked for. -/
inductive Command where
  | generate (size : Nat)
  | parse (formula : String) (drawn : Bool)
  | table (formula : String)
  | equivalent (a b : String)
  | check (answer reference : String)
  | add (prompt formula : String)
  | list
  | play (size rounds : Nat)
deriving DecidableEq

/-- Why a command fails. -/
inductive Failure where
  | malformed (error : SyntaxError)
  | valueless (error : ValueError)
  | size (error : SizeError)
  | store (error : StoreError)
  | unreadable
deriving DecidableEq

/-- The failure in words. -/
def Failure.message : Failure → String
  | .malformed e => e.message
  | .valueless e => e.message
  | .size e => e.message
  | .store e => e.message
  | .unreadable => AccessError.invalidText.message

/-- The line about a failure. -/
def Failure.line (palette : Palette) (f : Failure) : String :=
  palette.paint .boldRed "Error:" ++ " " ++ palette.paint .red f.message ++ "\n"

/-- What a command wrote, and why it failed, if it did. -/
structure Report where
  written : String
  failure? : Option Failure

namespace Report

/-- The report of a command that wrote `text`. -/
def success (text : String) : Report := ⟨text, none⟩

/-- The report of a command that failed before it wrote anything. -/
def fail (f : Failure) : Report := ⟨"", some f⟩

/-- The report of a command from the text that it writes or its failure. -/
def ofExcept : Except Failure String → Report
  | .ok text => success text
  | .error f => fail f

end Report

/-- What a command finds around it: whether colours are shown, a source of chance, the name of
the store, and what somebody types. -/
structure Surroundings (σ : Type) where
  palette : Palette
  source : σ
  storeName : String
  input : ByteArray

namespace Command

/-- The formula that somebody typed, read without its blanks. -/
def readTyped (s : String) : Except Failure Formula :=
  (Formula.parse (withoutBlanks s)).mapError .malformed

/-- What is written about a random exercise. -/
def showExercise (palette : Palette) (e : Exercise) : String :=
  palette.paint .blue e.prompt ++ "\n" ++ meaningLines palette e.meaning ++
    "Answer: " ++ palette.paint .green (toString e.formula) ++ "\n"

/-- What is written about a formula. -/
def showFormula (palette : Palette) (drawn : Bool) (f : Formula) : String :=
  "Formula: " ++ palette.paint .green (toString f) ++ "\n" ++
    "Variables: " ++ palette.paint .cyan f.variableSet.text ++ "\n" ++
    if drawn then f.drawingText else ""

/-- What is written about two formulas. -/
def showEquivalence (palette : Palette) (f g : Formula) (same : Bool) : String :=
  let tone : Tone := if same then .green else .red
  let sign := if same then " ∼ " else " ≁ "
  palette.paint tone (toString f) ++ sign ++ palette.paint tone (toString g) ++ "\n"

/-- What is written about the exercises of a store, which are numbered from `number` up. -/
def showList (palette : Palette) (number : Nat) : List Exercise → String
  | [] => ""
  | e :: es =>
    toString number ++ ". " ++ e.prompt ++ " => " ++ palette.paint .green (toString e.formula) ++
      "\n" ++ showList palette (number + 1) es

/-- What is written when a record has been added. -/
def showAdded (palette : Palette) (storeName : String) (r : Record) : String :=
  "Saved \"" ++ r.prompt ++ "\" as " ++ palette.paint .green r.formula ++ " in " ++ storeName ++
    "\n"

/-- Random exercises, up to the first that cannot be made. -/
def drawExercises {σ : Type} [Source σ] (size : Nat) :
    Nat → σ → Except SizeError (List Exercise)
  | 0, _ => .ok []
  | count + 1, s =>
    match Exercise.random size s with
    | (.error e, _) => .error e
    | (.ok e, s) => (drawExercises size count s).map (e :: ·)

/-- The exercises that are played: those of the store, or random ones if it has none. -/
def exercisesToPlay {σ : Type} [Source σ] (size rounds : Nat) (s : σ) (place : Place) :
    Except Failure (List Exercise) :=
  match place.load with
  | .error e => .error (.store e)
  | .ok [] => (drawExercises size rounds s).mapError .size
  | .ok es => .ok es

variable {σ : Type} [Source σ]

/-- Makes a random exercise. -/
def runGenerate (around : Surroundings σ) (size : Nat) : Report :=
  match Exercise.random size around.source with
  | (.error e, _) => .fail (.size e)
  | (.ok e, _) => .success (showExercise around.palette e)

/-- Shows a formula. -/
def runParse (around : Surroundings σ) (s : String) (drawn : Bool) : Report :=
  .ofExcept ((readTyped s).map (showFormula around.palette drawn))

/-- Shows the truth table of a formula. -/
def runTable (s : String) : Report :=
  .ofExcept do
    let f ← readTyped s
    let t ← (TruthTable.ofFormula f).mapError .valueless
    return t.text

/-- Compares two formulas. -/
def runEquivalent (around : Surroundings σ) (a b : String) : Report :=
  .ofExcept do
    let f ← readTyped a
    let g ← readTyped b
    let same ← (f.equivalent g).mapError .valueless
    return showEquivalence around.palette f g same

/-- Judges an answer against a formula. -/
def runCheck (around : Surroundings σ) (answer reference : String) : Report :=
  .ofExcept do
    let expected ← readTyped reference
    return verdictLine around.palette (judge expected (withoutBlanks answer))

/-- Adds an exercise to the store.  The report says so when the record has been written; that it
cannot be written in full, or that the report cannot be shown, is left out. -/
def runAdd (around : Surroundings σ) (place : Place) (prompt formula : String) :
    Report × Place :=
  match place.add prompt formula with
  | (.error e, place) => (.fail (.store e), place)
  | (.ok r, place) => (.success (showAdded around.palette around.storeName r), place)

/-- Shows the exercises of the store. -/
def runList (around : Surroundings σ) (place : Place) : Report :=
  .ofExcept ((place.load.mapError .store).map (showList around.palette 1))

/-- Plays the exercises of the store, or random ones. -/
def runPlay (around : Surroundings σ) (place : Place) (size rounds : Nat) : Report :=
  match exercisesToPlay size rounds around.source place with
  | .error f => .fail f
  | .ok es =>
    let session := Play.session around.palette es (Lines.ofBytes around.input.toList)
    ⟨session.written, if session.readable then none else some .unreadable⟩

/-- Runs a command: what it reports, and the place of the store afterwards. -/
def run (around : Surroundings σ) (place : Place) : Command → Report × Place
  | .generate size => (runGenerate around size, place)
  | .parse s drawn => (runParse around s drawn, place)
  | .table s => (runTable s, place)
  | .equivalent a b => (runEquivalent around a b, place)
  | .check answer reference => (runCheck around answer reference, place)
  | .add prompt formula => runAdd around place prompt formula
  | .list => (runList around place, place)
  | .play size rounds => (runPlay around place size rounds, place)

end Command
end Sentential
