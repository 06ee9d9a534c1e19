import Forth.Text.Blank
import Forth.Text.Quoted

/-!
The options of the command line with their names, and the mistakes that a command line can hold.
-/
namespace Forth

inductive Switch where
  | help | version | memory | debug | test
  deriving DecidableEq, Repr

namespace Switch

/-- The names of an option, as a complaint shows them. -/
def label : Switch → String
  | .help => "-h/--help"
  | .version => "-v/--version"
  | .memory => "-m/--memory"
  | .debug => "-d/--debug"
  | .test => "--test"

def takesValue : Switch → Bool
  | .memory => true
  | _ => false

def letters : List (Char × Switch) :=
  [('h', .help), ('v', .version), ('m', .memory), ('d', .debug)]

def longNames : List (String × Switch) :=
  [("--help", .help), ("--version", .version), ("--memory", .memory), ("--debug", .debug),
   ("--test", .test)]

/-- The option with exactly this name, and whether the name is a long one. -/
def named? (cs : List Char) : Option (Switch × Bool) :=
  match longNames.lookup (String.ofList cs) with
  | some s => some (s, true)
  | none =>
    match cs with
    | ['-', c] => (letters.lookup c).map fun s => (s, false)
    | _ => none

end Switch

inductive UsageError where
  | ambiguous (arg : String) (candidates : List String)
  | missingValue (s : Switch)
  | unusedValue (s : Switch) (value : String)
  | invalidNumber (s : Switch) (value : String)
  | unrecognized (args : List String)
  | negativeMemory
  deriving DecidableEq, Repr

namespace UsageError

def message : UsageError → String
  | .ambiguous arg candidates =>
    "ambiguous option: " ++ arg ++ " could match " ++ String.intercalate ", " candidates
  | .missingValue s => "argument " ++ s.label ++ ": expected one argument"
  | .unusedValue s value =>
    "argument " ++ s.label ++ ": ignored explicit argument " ++ Text.quoted value
  | .invalidNumber s value =>
    "argument " ++ s.label ++ ": invalid int value: " ++ Text.quoted value
  | .unrecognized args => "unrecognized arguments: " ++ Text.spaced args
  | .negativeMemory => "memory size must be >= 0"

end UsageError

end Forth
