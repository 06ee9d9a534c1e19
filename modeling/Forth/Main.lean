import Forth.SelfTest.All
import Forth.Program

/-!
The command line. All that is decided here is where input comes from and where output goes: standard
input is read as a whole, the file named by the arguments is read, and the report is printed.
-/
open Forth

partial def readLines (stream : IO.FS.Stream) (lines : Array String) : IO (Array String) := do
  let line ← stream.getLine
  if line.isEmpty then return lines else readLines stream (lines.push line)

def readFile? (path : String) : IO (Option ByteArray) := do
  try
    return some (← IO.FS.readBinFile path)
  catch _ => return none

def fileOf (c : Command) : IO (String → Option ByteArray) := do
  match c with
  | .runFile path .. =>
    let content ← readFile? path
    return fun p => if p == path then content else none
  | _ => return fun _ => none

/-- A typed line as the prompt hands it over, without its line end. -/
def typedLine (line : String) : Answer :=
  .line (if line.endsWith "\n" then String.ofList line.toList.dropLast else line)

/-- There are addresses for so many cells. Whether there is room for them shows when they are asked for. -/
def addressable : Nat := USize.size / 8

def main (args : List String) : IO UInt32 := do
  let command := Command.ofArgs args
  let lines ← match command with
    | .runFile .. | .interact .. => readLines (← IO.getStdin) #[]
    | _ => pure #[]
  let results := if command = .selfTest then SelfTest.runAll SelfTest.collectionNames else []
  for r in results do
    IO.eprintln (r.name ++ (if r.passed then " ... ok" else " ... FAIL"))
  let report := Program.perform
    { file? := ← fileOf command
      input := String.join lines.toList
      answers := lines.toList.map typedLine
      testsPass := fun _ => SelfTest.allPassed results
      room := addressable }
    command
  IO.print report.output
  for record in report.log do
    IO.eprintln record
  match report.ending with
  | .code n => return UInt32.ofNat n
  | .exited n complaint =>
    IO.eprint complaint
    return UInt32.ofNat n
  | .fault f =>
    IO.eprintln f.message
    return 1
