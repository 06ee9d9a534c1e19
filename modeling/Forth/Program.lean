import Forth.CommandLine.Options
import Forth.Journal
import Forth.Prompt
import Forth.SourceFile

/-!
The program behind the command line, as a function of everything it is given: arguments, files, standard
input, and the answers of the user at the prompt.
-/
namespace Forth

namespace Program

def usageLine : String := "usage: csforth [-h] [-v] [-m N] [-d] [--test] [path]\n"

def helpText : String :=
  usageLine ++ String.join
    ["\n",
     "The CSForth interpreter\n",
     "\n",
     "positional arguments:\n",
     "  path              source file to interpret (omit for the REPL)\n",
     "\n",
     "options:\n",
     "  -h, --help        show this help message and exit\n",
     "  -v, --version     show the current CSForth version\n",
     "  -m N, --memory N  memory region size in cells (default 128)\n",
     "  -d, --debug       debug logging and final stack dump\n",
     "  --test            run the embedded test suites\n"]

def complaint (e : UsageError) : String :=
  usageLine ++ "csforth: error: " ++ e.message ++ "\n"

inductive Ending where
  | code (n : Nat)
  | exited (n : Nat) (complaint : String)
  | fault (f : Fault)
  deriving DecidableEq, Repr

structure Report where
  output : String
  prompts : List String
  log : List String
  ending : Ending
  deriving DecidableEq, Repr

/-- What the program can see besides its arguments, and how many memory cells there is room for. -/
structure Surroundings where
  file? : String → Option ByteArray
  input : String
  answers : List Answer
  testsPass : Unit → Bool
  room : Nat

def logOf (debug : Bool) (journal : Array Event) : List String :=
  if debug then journal.toList.filterMap Event.record? else []

def quiet (output : String) (ending : Ending) : Report := ⟨output, [], [], ending⟩

def shownPrompts : Source → List String
  | .user u => u.prompts.toList
  | _ => []

def endingOf : Except Fault Nat → Ending
  | .ok code => .code code
  | .error f => .fault f

/-- Run the interactive session. The standard words are there before the memory. -/
def interact (room : Nat) (memory : Int) (debug : Bool) (answers : List Answer) : Report :=
  match Memory.ofSize room memory with
  | .error f => ⟨"", [], logOf debug (@booted Empty _).journal, .fault f⟩
  | .ok memory =>
    let m : Machine Empty := Machine.fresh memory (Console.ofUser answers)
    let report (m : Machine Empty) (ending : Ending) : Report :=
      ⟨m.console.sink.output, shownPrompts m.console.source, logOf debug m.journal, ending⟩
    match Prompt.session m with
    | .ok () m => report m (.code 0)
    | .error f m => report m (.fault f)

def perform (s : Surroundings) : Command → Report
  | .showHelp => quiet helpText (.exited 0 "")
  | .refuse e => quiet "" (.exited 2 (complaint e))
  | .selfTest => quiet "" (.code (if s.testsPass () then 0 else 1))
  | .showVersion => quiet Prompt.version (.code 0)
  | .runFile path memory debug =>
    let o : SourceFile.Outcome Empty :=
      SourceFile.runFile path (s.file? path) s.room memory debug (Console.ofText s.input)
    ⟨o.console.sink.output, [], logOf debug o.journal, endingOf o.exit⟩
  | .interact memory debug => interact s.room memory debug s.answers
  | .fail f => quiet "" (.fault f)

end Program
end Forth
