/-
# Only adding changes the store

Command lines are taken one after another, each with what is found around it, on one place.  A
turn adds a record if its command is to add one and does not fail; every other turn leaves the
place as it was.  So after any number of turns the place has the lines of the added records, in
their order, behind what was there.

The place is that of the store which the command lines name, all of them the same one.  A command
line that names another store with `--store` has no effect on this place, and is no turn here; what
it does is a turn on the place of the other store.

* `Turn.extends_take`, `Place.extends_takeTurns`: what one turn does to the place, and many;
* `only_added_records_change_store`: all together.
-/
import Sentential.Command.Invocation
import Sentential.Proofs.Store.Gaining
import Sentential.Random.WordList

namespace Sentential

/-! ## 1. Turns -/

/-- A command line, and what is found around it.  The store that the command line names is the one
at the place on which the turn is taken. -/
structure Turn (σ : Type) where
  arguments : List String
  around : Surroundings σ

/-- What becomes of a turn: its command line asks for nothing, or its command reports. -/
inductive Turn.Outcome where
  | refused (error : UsageError)
  | reported (command : Command) (report : Report)

/-- The record that a turn added: that of a command to add one, if it did not fail.  It has the
prompt without the blanks at its ends, and the formula without blanks. -/
def Turn.Outcome.record? : Turn.Outcome → Option Record
  | .reported (.add prompt text) ⟨_, none⟩ => some ⟨trimBlanks prompt, withoutBlanks text⟩
  | _ => none

/-- The records that some turns added. -/
def addedRecords (log : List Turn.Outcome) : List Record := log.filterMap Turn.Outcome.record?

theorem addedRecords_cons (outcome : Turn.Outcome) (log : List Turn.Outcome) :
    addedRecords (outcome :: log) = outcome.record?.toList ++ addedRecords log := by
  rw [addedRecords, List.filterMap_cons]
  cases outcome.record? <;> rfl

variable {σ : Type} [Source σ]

/-- One turn: what becomes of it, and the place afterwards.  The name of the store is not looked at,
because the place is what is found under it. -/
def Turn.take (turn : Turn σ) (place : Place) : Turn.Outcome × Place :=
  match Invocation.ofArguments turn.arguments with
  | .error e => (.refused e, place)
  | .ok i => (.reported i.command (i.command.run turn.around place).1,
      (i.command.run turn.around place).2)

/-- Some turns one after another: what becomes of each of them, and the place afterwards. -/
def Place.takeTurns (place : Place) : List (Turn σ) → List Turn.Outcome × Place
  | [] => ([], place)
  | turn :: turns =>
    ((turn.take place).1 :: ((turn.take place).2.takeTurns turns).1,
      ((turn.take place).2.takeTurns turns).2)

theorem Place.length_takeTurns (place : Place) (turns : List (Turn σ)) :
    (place.takeTurns turns).1.length = turns.length := by
  induction turns generalizing place with
  | nil => rfl
  | cons turn turns ih => rw [takeTurns, List.length_cons, List.length_cons, ih]

/-- **One command.**  Only one that adds a record and does not fail changes the place. -/
theorem Command.extends_run (c : Command) (around : Surroundings σ) (place : Place) :
    place.Extends (Turn.Outcome.reported c (c.run around place).1).record?.toList
      (c.run around place).2 := by
  cases c with
  | add prompt text =>
    rw [Command.run, Command.runAdd]
    rcases place.add_cases prompt text with ⟨-, e, hadd⟩ | ⟨-, bytes, hbase, hadd⟩
    · rw [hadd]
      exact .same
    · rw [hadd]
      exact .lines (List.cons_ne_nil _ _) hbase
  | generate size => exact .same
  | parse text drawn => exact .same
  | table text => exact .same
  | equivalent a b => exact .same
  | check answer reference => exact .same
  | list => exact .same
  | play size rounds => exact .same

/-- **One turn.** -/
theorem Turn.extends_take (turn : Turn σ) (place : Place) :
    place.Extends (turn.take place).1.record?.toList (turn.take place).2 := by
  rw [Turn.take]
  cases Invocation.ofArguments turn.arguments with
  | error e => exact .same
  | ok i => exact i.command.extends_run turn.around place

/-- **Many turns.** -/
theorem Place.extends_takeTurns (place : Place) (turns : List (Turn σ)) :
    place.Extends (addedRecords (place.takeTurns turns).1) (place.takeTurns turns).2 := by
  induction turns generalizing place with
  | nil => exact .same
  | cons turn turns ih =>
    rw [Place.takeTurns, addedRecords_cons]
    exact (turn.extends_take place).append (ih _)

/-- A turn that adds no record changes nothing. -/
theorem Turn.take_eq_of_record? {turn : Turn σ} {place : Place}
    (h : (turn.take place).1.record? = none) : (turn.take place).2 = place := by
  have hextends := turn.extends_take place
  rw [h] at hextends
  exact hextends.eq_of_nil

/-- A turn that is to add a record does so if it can. -/
theorem Turn.record?_take {turn : Turn σ} {i : Invocation} {prompt text : String}
    (hi : Invocation.ofArguments turn.arguments = .ok i) (hc : i.command = .add prompt text)
    (place : Place) :
    (turn.take place).1.record? = some ⟨trimBlanks prompt, withoutBlanks text⟩ ↔
      place.CanAdd text := by
  rw [Turn.take, hi]
  simp only [hc, Command.run, Command.runAdd]
  rcases place.add_cases prompt text with ⟨hno, e, hadd⟩ | ⟨hcan, bytes, -, hadd⟩
  · rw [hadd]
    exact iff_of_false nofun hno
  · rw [hadd]
    exact iff_of_true rfl hcan

/-! ## 2. All together -/

/-- **Only adding changes the store, and it only appends.**  Whatever is at the place, and whatever
the command lines are, the place has the lines of the records that were added behind what was
there; each of them is one line.  A turn that adds no record leaves the place as it is, and one
that is to add a record does so exactly if its formula is one and there can be a file. -/
theorem only_added_records_change_store :
    (∀ (start : Place) (turns : List (Turn σ)),
      (start.takeTurns turns).1.length = turns.length ∧
      start.Extends (addedRecords (start.takeTurns turns).1) (start.takeTurns turns).2) ∧
    (∀ r : Record, r.savedLine.count '\n' = 1 ∧ r.savedLine.getLast? = some '\n') ∧
    (∀ (turn : Turn σ) (place : Place), (turn.take place).1.record? = none →
      (turn.take place).2 = place) ∧
    ∀ (turn : Turn σ) (place : Place) (i : Invocation) (prompt text : String),
      Invocation.ofArguments turn.arguments = .ok i → i.command = .add prompt text →
        ((turn.take place).1.record? = some ⟨trimBlanks prompt, withoutBlanks text⟩ ↔
          place.CanAdd text) := by
  refine ⟨?_, ?_, ?_, ?_⟩
  · intro start turns
    exact ⟨start.length_takeTurns turns, start.extends_takeTurns turns⟩
  · intro r
    exact ⟨r.count_savedLine, r.getLast?_savedLine⟩
  · intro turn place h
    exact Turn.take_eq_of_record? h
  · intro turn place i prompt text hi hc
    exact Turn.record?_take hi hc place

/-- A file that is no text cannot be listed and stays as it is, but a record can be added to it. -/
theorem unreadable_file_is_appended_to :
    let around : Surroundings WordList := ⟨.plain, .ofList [], "store", .empty⟩
    let place : Place := .file ⟨#[255]⟩
    (Turn.take ⟨["list"], around⟩ place).1.record? = none ∧
      (Turn.take ⟨["list"], around⟩ place).2 = place ∧
      (Turn.take ⟨["add", "--prompt", " Tea\n", "--formula", "(p & q)"], around⟩ place).1.record? =
        some ⟨"Tea", "(p&q)"⟩ := by
  intro around place
  obtain ⟨-, -, hkeep, hadd⟩ := only_added_records_change_store (σ := WordList)
  have hlist : (Turn.take ⟨["list"], around⟩ place).1.record? = none := rfl
  have hprompt : trimBlanks " Tea\n" = "Tea" := by decide
  have hformula : withoutBlanks "(p & q)" = "(p&q)" := by decide
  have hcan : place.CanAdd "(p & q)" := by
    refine ⟨⟨.binary .conjunction (.atom (.variable .p)) (.atom (.variable .q)), ?_⟩, _, rfl⟩
    exact Formula.parse_eq_ok_iff.mpr (by decide)
  have hrecord := (hadd ⟨["add", "--prompt", " Tea\n", "--formula", "(p & q)"], around⟩ place _ _ _
    rfl rfl).mpr hcan
  rw [hprompt, hformula] at hrecord
  exact ⟨hlist, hkeep _ _ hlist, hrecord⟩

end Sentential
