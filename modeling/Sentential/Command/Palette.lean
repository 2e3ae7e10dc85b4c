/-
# Coloured text

Text is painted with the escape sequences of a terminal, or left plain.  Where a painted text
brings a reset of its own, the colour is opened again behind it, so it lasts to the end.
-/
namespace Sentential

/-- The ways in which text stands out. -/
inductive Tone where
  | red
  | green
  | yellow
  | blue
  | cyan
  | boldRed
deriving DecidableEq

/-- Whether a terminal shows colours. -/
inductive Palette where
  | plain
  | coloured
deriving DecidableEq

namespace Tone

/-- The sequence that opens a tone. -/
def opening : Tone → List Char
  | .red => "\x1b[31m".toList
  | .green => "\x1b[32m".toList
  | .yellow => "\x1b[33m".toList
  | .blue => "\x1b[34m".toList
  | .cyan => "\x1b[36m".toList
  | .boldRed => "\x1b[1;31m".toList

/-- The sequence that ends every tone. -/
def reset : List Char := "\x1b[0m".toList

/-- Opens a tone again behind every reset. -/
def reopened (opening : List Char) : List Char → List Char
  | '\x1b' :: '[' :: '0' :: 'm' :: rest => reset ++ opening ++ reopened opening rest
  | c :: rest => c :: reopened opening rest
  | [] => []

end Tone

/-- A text in a tone. -/
def Palette.paint : Palette → Tone → String → String
  | .plain, _, s => s
  | .coloured, tone, s =>
    String.ofList (tone.opening ++ Tone.reopened tone.opening s.toList ++ Tone.reset)

/-- The palette that the environment asks for.  Each variable is given by its value, if it is set:
`force` turns colours on, `never` turns them off, and otherwise a terminal gets them unless `wish`
speaks against it.  The value `0` says no. -/
def Palette.chosen (force never wish : Option String) (terminal : Bool) : Palette :=
  let asks (setting : Option String) : Bool := setting.any (· != "0")
  if asks force then .coloured
  else if never.isSome then .plain
  else if terminal && wish != some "0" then .coloured
  else .plain

end Sentential
