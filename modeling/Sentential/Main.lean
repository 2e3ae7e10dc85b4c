/-
# The command line

Reads the arguments, the file of the store and what is typed, runs the command, and writes what
it reports.  Everything that is decided is decided elsewhere.  A command that plays is run on the
terminal, because the questions are to be seen before the answers are typed; that it shows what the
command reports is `Terminal.memory_play`.
-/
import Sentential.Command.Invocation
import Sentential.Command.Terminal
import Sentential.Random.KeyStream

namespace Sentential
namespace CommandLine

/-- The file of the store, if no other is named. -/
def defaultStore : String := "saved_exercises.json"

/-- What is at a path.  Whether the directory of a missing file exists shows when it is written. -/
def placeAt (path : String) : IO Place := do
  try
    return .file (← IO.FS.readBinFile path)
  catch
    | .noFileOrDirectory .. => return .absent
    | .inappropriateType _ 21 _ => return .directory
    | .inappropriateType .. => return .belowFile
    | e => throw e

/-- Appends to the file what it has gained.  False if its directory does not exist. -/
def save (path : String) (before after : Place) : IO Bool := do
  let old := (before.bytes?.map ByteArray.size).getD 0
  match after.bytes? with
  | none => return true
  | some bytes =>
    if bytes.size = old then return true
    try
      let handle ← IO.FS.Handle.mk path IO.FS.Mode.append
      handle.write (bytes.extract old bytes.size)
      handle.flush
      return true
    catch
      | .noFileOrDirectory .. => return false
      | e => throw e

/-- Shows what was written and the failure, and gives the exit code. -/
def emit (palette : Palette) (r : Report) : IO UInt32 := do
  IO.print r.written
  match r.failure? with
  | none => return 0
  | some f =>
    IO.eprint (f.line palette)
    return 1

/-- Runs a command on the file of the store. -/
def runOn (path : String) (around : Surroundings KeyStream) (c : Command) : IO UInt32 := do
  let before ← placeAt path
  let (report, after) := c.run around before
  if ← save path before after then emit around.palette report
  else emit around.palette (c.run around .orphaned).1

/-- Reads bytes up to the next line feed or the end. -/
partial def typedLine (read : ByteArray) : IO ByteArray := do
  let next ← (← IO.getStdin).read 1
  let read := read ++ next
  if next.isEmpty || next.toList == [10] then return read else typedLine read

/-- The terminal that the program is started from.  What is shown is seen at once. -/
def console : Terminal IO where
  print text := do
    IO.print text
    (← IO.getStdout).flush
  typed := do return (← typedLine .empty).toList

/-- Plays the exercises of a store, or random ones. -/
def play (path : String) (around : Surroundings KeyStream) (size rounds : Nat) : IO UInt32 := do
  let failure? ← console.play around (← placeAt path) size rounds
  emit around.palette ⟨"", failure?⟩

/-- A seed from the system. -/
def freshSeed : IO Nat := do
  return (← IO.getRandomBytes 8).foldl (fun n b => n * 256 + b.toNat) 0

/-- Runs an invocation. -/
def invoke (invocation : Invocation) : IO UInt32 := do
  let path := invocation.storeName?.getD defaultStore
  let seed ← match invocation.seed? with
    | some seed => pure seed
    | none => freshSeed
  let palette := Palette.chosen (← IO.getEnv "CLICOLOR_FORCE") (← IO.getEnv "NO_COLOR")
    (← IO.getEnv "CLICOLOR") (← (← IO.getStdout).isTty)
  let around : Surroundings KeyStream := {
    palette := palette
    source := KeyStream.ofSeed (UInt64.ofNat seed)
    storeName := path
    input := ByteArray.empty }
  match invocation.command with
  | .play size rounds => play path around size rounds
  | c => runOn path around c

end CommandLine
end Sentential

/-- Runs one command. -/
def main (arguments : List String) : IO UInt32 := do
  match Sentential.Invocation.ofArguments arguments with
  | .ok invocation => Sentential.CommandLine.invoke invocation
  | .error e =>
    IO.eprintln ("Error: " ++ e.message)
    return 2
