import Forth.Stack
import Forth.Memory
import Forth.Dictionary
import Forth.Variables
import Forth.Console

/-!
The state of an interpreter, and the actions that words are made of. An action that goes wrong keeps the
state it had reached: cells it has popped stay popped.
-/
namespace Forth

inductive Event where
  | defined (name : String) (tokens : Nat)
  | declared (name : String) (n : Int)
  | evaluationFailed (report : String)
  | runFailed
  | running (path : String) (size : Nat)
  | finalStack (summary : String)
  deriving DecidableEq, Repr

structure Machine (ε : Type) where
  stack : Stack
  memory : Memory
  words : Dictionary ε
  console : Console
  journal : Array Event
  deriving DecidableEq, Repr

/-- A machine together with the variables of the sequence of tokens that it is evaluating. -/
structure Scope (ε : Type) extends Machine ε where
  vars : Variables
  deriving DecidableEq, Repr

/-- A step of a machine that may go wrong. -/
abbrev Action (ε α : Type) := EStateM Trouble (Machine ε) α

namespace Machine

variable {ε : Type}

def note (m : Machine ε) (e : Event) : Machine ε :=
  { m with journal := m.journal.push e }

def push (n : Int) : Action ε Unit := fun m =>
  .ok () { m with stack := n :: m.stack }

def pop : Action ε Int := fun m =>
  match m.stack with
  | [] => .error (.cause .stackUnderflow) m
  | n :: rest => .ok n { m with stack := rest }

/-- Write a text to the console. An empty one leaves no trace. -/
def emit (t : String) : Action ε Unit := fun m =>
  if t.isEmpty then .ok () m
  else if m.console.sink.accepts then
    .ok () { m with console := { m.console with sink := m.console.sink.append t } }
  else .error (.fault .unsupported) m

def writeLine (t : String) : Action ε Unit := emit (t ++ "\n")

/-- Write a text that only exists if no number in it is too long. -/
def emit? : Option String → Action ε Unit
  | some t => emit t
  | none => throw (.fault .digitLimit)

def writeNumber (n : Int) : Action ε Unit := emit? (Numeral.text? n)

def readLine : Action ε (Option String) := fun m =>
  match m.console.source.readLine with
  | (.ok line, source) => .ok line { m with console := { m.console with source } }
  | (.error f, source) => .error (.fault f) { m with console := { m.console with source } }

def fetch (address : Int) : Action ε Int := fun m =>
  match m.memory.fetch address with
  | .ok n => .ok n m
  | .error t => .error t m

def store (address n : Int) : Action ε Unit := fun m =>
  match m.memory.check address with
  | .ok i => .ok () { m with memory := m.memory.put i n }
  | .error t => .error t m

def define (name : String) (body : List String) (effect : String) : Action ε Unit := fun m =>
  match m.words.add ⟨name, effect, .definition body⟩ with
  | .ok words => .ok () ({ m with words }.note (.defined name body.length))
  | .error c => .error (.cause c) m

end Machine
end Forth
