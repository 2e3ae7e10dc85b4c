/-
# Invocations

A command line asks for one command.  Its first word names the command, and the general options
may stand on both sides of that word, where the later one counts.  Help is left out: there are no
options `--help` and `-h` and no command `help`, so each of them is refused like any other that is
unknown, and no text about the commands is shown.  Logging is left out too, so `--verbose` may be
given and changes nothing.

* `Invocation.ofArguments`: what a command line asks for, or why it asks for nothing.
-/
import Sentential.Command
import Sentential.Command.Arguments

namespace Sentential

/-- The options that may be given with every command. -/
def generalOptions : List CommandOption :=
  [⟨"verbose", some 'v', .repeats⟩, ⟨"seed", none, .value⟩, ⟨"store", none, .value⟩]

/-- A kind of command: its name, its own options, and how it is made from what is given. -/
structure CommandForm where
  name : String
  options : List CommandOption
  make : Given → Except UsageError Command

/-- The commands. -/
def commandForms : List CommandForm :=
  [ { name := "generate"
      options := [⟨"size", some 's', .value⟩]
      make := fun g => do
        g.noWord
        return .generate (← g.number "size" 2) },
    { name := "parse"
      options := [⟨"tree", none, .nothing⟩]
      make := fun g => do return .parse (← g.oneWord) (g.has "tree") },
    { name := "table"
      options := []
      make := fun g => do return .table (← g.oneWord) },
    { name := "equivalent"
      options := []
      make := fun g => do
        let (a, b) ← g.twoWords
        return .equivalent a b },
    { name := "check"
      options := [⟨"reference", some 'r', .value⟩]
      make := fun g => do return .check (← g.oneWord) (← g.text "reference") },
    { name := "add"
      options := [⟨"prompt", none, .value⟩, ⟨"formula", none, .value⟩]
      make := fun g => do
        g.noWord
        return .add (← g.text "prompt") (← g.text "formula") },
    { name := "list"
      options := []
      make := fun g => do
        g.noWord
        return .list },
    { name := "play"
      options := [⟨"size", some 's', .value⟩, ⟨"rounds", some 'r', .value⟩]
      make := fun g => do
        g.noWord
        return .play (← g.number "size" 2) (← g.number "rounds" 3) } ]

/-- What a command line asks for: a command, and with it perhaps a seed and the name of the
store. -/
structure Invocation where
  command : Command
  seed? : Option Nat
  storeName? : Option String

/-- The invocation that a command line stands for.  One that asks for help stands for none. -/
def Invocation.ofArguments (arguments : List String) : Except UsageError Invocation := do
  let (front, rest) ← readArguments generalOptions true .empty arguments
  match rest with
  | [] => .error .missingCommand
  | word :: rest =>
    match commandForms.find? (fun form => form.name == word) with
    | none => .error (.unknownCommand word)
    | some form =>
      let (back, _) ← readArguments (form.options ++ generalOptions) false .empty rest
      let command ← form.make back
      let seed? ← front.number? "seed"
      let laterSeed? ← back.number? "seed"
      let storeName? ← front.fileName? "store"
      let laterStoreName? ← back.fileName? "store"
      return {
        command := command
        seed? := laterSeed?.or seed?
        storeName? := laterStoreName?.or storeName? }

end Sentential
