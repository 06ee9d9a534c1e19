import Forth.Standard
import Forth.Text.Quoted

/-!
Dot-commands: requests to show what an interpreter holds. They are no words, and change nothing.
-/
namespace Forth

inductive DotCommand where
  | bye | dict | help | mem | see | stack | word
  deriving DecidableEq, Repr

namespace DotCommand

def table : List (String × DotCommand) :=
  [(".bye", .bye), (".dict", .dict), (".help", .help), (".mem", .mem), (".see", .see),
   (".stack", .stack), (".word", .word)]

def names : List String := table.map (·.1)

def ofName? (name : String) : Option DotCommand := table.lookup name

def helpLine : String := ".stack .dict [filter] .word <w> .see <w> .mem [n] .bye\n"

def occursIn (part whole : List Char) : Bool :=
  match whole with
  | [] => part.isEmpty
  | _ :: rest => part.isPrefixOf whole || occursIn part rest

/-- The first `n` cells, or all but the last `-n`. -/
def leading (cells : List Int) (n : Int) : List Int :=
  if 0 ≤ n then cells.take n.toNat else cells.take (cells.length + n).toNat

/-- How many cells `.mem` shows when it is not told. -/
def defaultCount : Int := 16

variable {ε : Type}

def showStack (m : Machine ε) : Except Fault String :=
  match m.stack.summary? with
  | some s => .ok (s ++ " \n")
  | none => .error .digitLimit

def showDict (m : Machine ε) (filter : Option String) : String :=
  let names := match filter with
    | none => m.words.sortedNames
    | some part => m.words.sortedNames.filter fun name => occursIn part.toList name.toList
  Text.spaced names ++ "\n"

def showWord (m : Machine ε) (name : String) : String :=
  match m.words.find? name with
  | none => "word not found: " ++ name ++ "\n"
  | some w =>
    "name=" ++ w.name ++ " class=" ++ w.className ++ " effect=" ++ Text.quoted w.effect ++ "\n"

def showSource (m : Machine ε) (name : String) : String :=
  match m.words.find? name with
  | none => "unknown: " ++ name ++ "\n"
  | some w => w.source ++ "\n"

def showMemory (m : Machine ε) (count : Int) : Except Fault String :=
  match Numeral.texts? (leading m.memory.cells.toList count) with
  | none => .error .digitLimit
  | some cells => .ok ("MEM[" ++ m.memory.size.repr ++ "]: " ++ Text.spaced cells ++ "\n")

/-- What a command writes, given the words after it. -/
def perform (m : Machine ε) (args : List String) : DotCommand → Except Fault String
  | .bye => .ok ""
  | .help => .ok helpLine
  | .stack => showStack m
  | .dict => .ok (showDict m args.head?)
  | .word =>
    match args with
    | [] => .ok "word not found: \n"
    | name :: _ => .ok (showWord m name)
  | .see =>
    match args with
    | [] => .ok "unknown: \n"
    | name :: _ => .ok (showSource m name)
  | .mem =>
    match args with
    | [] => showMemory m defaultCount
    | arg :: _ =>
      match Numeral.readCount? arg with
      | none => .ok ("bad count: " ++ arg ++ "\n")
      | some n => showMemory m n

def answer (m : Machine ε) (line : String) : Except Fault String :=
  match Text.words line with
  | [] => .error .indexOutOfRange
  | name :: args =>
    match ofName? name with
    | none => .ok ("unknown dot-cmd: " ++ name ++ "\n")
    | some c => c.perform m args

end DotCommand
end Forth
