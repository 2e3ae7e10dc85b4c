/-
# Arguments

The arguments of a command line are options, words, or values of options.  An option may be given
by its name (`--size 3`, `--size=3`) or by its letter (`-s 3`, `-s3`, `-s=3`), and letters may be
joined (`-vs3`); everything behind `--` is a word.

* `readArguments`: the options and words that are given.
-/
import Sentential.Word

namespace Sentential

/-- Why a command line cannot be understood. -/
inductive UsageError where
  | unknownOption (argument : String)
  | missingValue (option : String)
  | unexpectedValue (option : String)
  | repeated (option : String)
  | badNumber (option value : String)
  | missingOption (option : String)
  | missingCommand
  | unknownCommand (word : String)
  | missingWord
  | unexpectedWord (word : String)
deriving DecidableEq

/-- The error in words, which are this library's own. -/
def UsageError.message : UsageError → String
  | .unknownOption argument => "unknown option " ++ argument
  | .missingValue option => "no value for --" ++ option
  | .unexpectedValue option => "a value for --" ++ option ++ ", which takes none"
  | .repeated option => "--" ++ option ++ " is given twice"
  | .badNumber option value => "the value \"" ++ value ++ "\" of --" ++ option ++ " is no number"
  | .missingOption option => "--" ++ option ++ " is not given"
  | .missingCommand => "no command is given"
  | .unknownCommand word => "unknown command " ++ word
  | .missingWord => "an argument is missing"
  | .unexpectedWord word => "unexpected argument " ++ word

/-! ## 1. Options -/

/-- What an option takes: nothing, nothing but it may be repeated, or a value. -/
inductive Takes where
  | nothing
  | repeats
  | value
deriving DecidableEq

/-- An option that a command has. -/
structure CommandOption where
  name : String
  letter? : Option Char
  takes : Takes

/-- The options and words given so far, and the option that still needs its value. -/
structure Given where
  options : List (String × String)
  words : List String
  waiting? : Option CommandOption

namespace Given

/-- Nothing is given. -/
def empty : Given := ⟨[], [], none⟩

/-- Whether an option is given. -/
def has (g : Given) (name : String) : Bool :=
  (g.options.lookup name).isSome

/-- Adds an option with its value.  Only one that `repeats` may be given again. -/
def addOption (g : Given) (o : CommandOption) (value : String) : Except UsageError Given :=
  if g.has o.name ∧ o.takes ≠ .repeats then .error (.repeated o.name)
  else .ok { g with options := g.options ++ [(o.name, value)], waiting? := none }

/-- Adds words. -/
def addWords (g : Given) (words : List String) : Given :=
  { g with words := g.words ++ words }

/-- Leaves an option waiting for its value. -/
def await (g : Given) (o : CommandOption) : Given :=
  { g with waiting? := some o }

/-- The same, if no option is waiting for its value. -/
def settled (g : Given) : Except UsageError Given :=
  match g.waiting? with
  | some o => .error (.missingValue o.name)
  | none => .ok g

end Given

/-- Reads an option given by its name. -/
def readLong (options : List CommandOption) (g : Given) (argument : List Char) :
    Except UsageError Given :=
  let name := String.ofList (argument.takeWhile (· != '='))
  match options.find? (fun o => o.name == name) with
  | none => .error (.unknownOption name)
  | some o =>
    match o.takes, argument.dropWhile (· != '=') with
    | .value, [] => .ok (g.await o)
    | .value, _ :: value => g.addOption o (String.ofList value)
    | _, [] => g.addOption o ""
    | _, _ :: _ => .error (.unexpectedValue o.name)

/-- Reads options given by their letters. -/
def readLetters (options : List CommandOption) (g : Given) :
    List Char → Except UsageError Given
  | [] => .ok g
  | c :: cs =>
    match options.find? (fun o => o.letter? == some c) with
    | none => .error (.unknownOption (String.ofList (c :: cs)))
    | some o =>
      match o.takes, cs with
      | .value, [] => .ok (g.await o)
      | .value, '=' :: value => g.addOption o (String.ofList value)
      | .value, value => g.addOption o (String.ofList value)
      | _, cs => g.addOption o "" >>= fun g => readLetters options g cs

/-- Reads arguments.  If `untilWord`, reading stops in front of the first word; the second part of
the result is what was not read. -/
def readArguments (options : List CommandOption) (untilWord : Bool) (g : Given) :
    List String → Except UsageError (Given × List String)
  | [] => g.settled.map (·, [])
  | argument :: later =>
    match argument.toList with
    | ['-', '-'] =>
      if untilWord then .error .missingCommand
      else g.settled.map fun g => (g.addWords later, [])
    | '-' :: '-' :: name =>
      g.settled >>= fun g => readLong options g name >>= fun g =>
        readArguments options untilWord g later
    | '-' :: c :: cs =>
      g.settled >>= fun g => readLetters options g (c :: cs) >>= fun g =>
        readArguments options untilWord g later
    | _ =>
      match g.waiting? with
      | some o => g.addOption o argument >>= fun g => readArguments options untilWord g later
      | none =>
        if untilWord then .ok (g, argument :: later)
        else readArguments options untilWord (g.addWords [argument]) later

/-! ## 2. Values -/

/-- The number of at most 64 bits that a text of digits, with or without a plus, stands for. -/
def natOfText? (s : String) : Option Nat :=
  let digits :=
    match s.toList with
    | '+' :: cs => cs
    | cs => cs
  if digits.isEmpty ∨ ¬ digits.all Char.isDigit then none
  else
    let n := digits.foldl (fun n c => n * 10 + (c.toNat - 48)) 0
    if n < Word.size64 then some n else none

namespace Given

/-- The number given for an option. -/
def number? (g : Given) (name : String) : Except UsageError (Option Nat) :=
  match g.options.lookup name with
  | none => .ok none
  | some value =>
    match natOfText? value with
    | some n => .ok (some n)
    | none => .error (.badNumber name value)

/-- The number given for an option, or else `other`. -/
def number (g : Given) (name : String) (other : Nat) : Except UsageError Nat :=
  (g.number? name).map (·.getD other)

/-- The text given for an option. -/
def text (g : Given) (name : String) : Except UsageError String :=
  match g.options.lookup name with
  | some value => .ok value
  | none => .error (.missingOption name)

/-- The name of a file given for an option.  A file has a name that is not empty. -/
def fileName? (g : Given) (name : String) : Except UsageError (Option String) :=
  match g.options.lookup name with
  | none => .ok none
  | some value => if value.isEmpty then .error (.missingValue name) else .ok (some value)

/-- No words are given. -/
def noWord (g : Given) : Except UsageError Unit :=
  match g.words with
  | [] => .ok ()
  | w :: _ => .error (.unexpectedWord w)

/-- The one word that is given. -/
def oneWord (g : Given) : Except UsageError String :=
  match g.words with
  | [] => .error .missingWord
  | [w] => .ok w
  | _ :: w :: _ => .error (.unexpectedWord w)

/-- The two words that are given. -/
def twoWords (g : Given) : Except UsageError (String × String) :=
  match g.words with
  | [] | [_] => .error .missingWord
  | [w, w'] => .ok (w, w')
  | _ :: _ :: w :: _ => .error (.unexpectedWord w)

end Given

end Sentential
