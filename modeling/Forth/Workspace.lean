import Forth.DotCommand

/-!
Several interpreters side by side. Each has a memory of its own; stacks, dictionaries and consoles lie in
common stores, so that interpreters may share them. A clone starts with an empty stack and zeroed memory
over the same dictionary or a copy of it.
-/
namespace Forth

/-- An interpreter of a workspace: its memory and journal, and which stack, dictionary and console it uses. One that
is hosted shares its console with its clones, and keeps it while a line is evaluated. -/
structure Seat where
  stack : Nat
  words : Nat
  console : Nat
  memory : Memory
  journal : Array Event
  hosted : Bool
  deriving DecidableEq, Repr

structure Workspace (ε : Type) where
  stackStore : Array Stack
  wordStore : Array (Dictionary ε)
  consoleStore : Array Console
  seats : Array Seat
  deriving DecidableEq, Repr

namespace Workspace

variable {ε : Type}

def single (m : Machine ε) (hosted : Bool) : Workspace ε where
  stackStore := #[m.stack]
  wordStore := #[m.words]
  consoleStore := #[m.console]
  seats := #[⟨0, 0, 0, m.memory, m.journal, hosted⟩]

/-- The machine that an interpreter is at the moment. -/
def machine? (w : Workspace ε) (i : Nat) : Option (Machine ε) := do
  let seat ← w.seats[i]?
  return {
    stack := ← w.stackStore[seat.stack]?
    memory := seat.memory
    words := ← w.wordStore[seat.words]?
    console := ← w.consoleStore[seat.console]?
    journal := seat.journal }

/-- Put back the machine of an interpreter after it has worked. -/
def put (w : Workspace ε) (i : Nat) (m : Machine ε) : Workspace ε :=
  match w.seats[i]? with
  | none => w
  | some seat =>
    { stackStore := w.stackStore.setIfInBounds seat.stack m.stack
      wordStore := w.wordStore.setIfInBounds seat.words m.words
      consoleStore := w.consoleStore.setIfInBounds seat.console m.console
      seats := w.seats.setIfInBounds i { seat with memory := m.memory, journal := m.journal } }

def seatText (w : Workspace ε) (stack words : Nat) (memory : Memory) : Workspace ε :=
  { w with
    consoleStore := w.consoleStore.push (Console.ofText "")
    seats := w.seats.push ⟨stack, words, w.consoleStore.size, memory, #[], false⟩ }

/-- Add a clone of an interpreter. -/
def clone (w : Workspace ε) (i : Nat) (shareWords : Bool) : Option (Workspace ε) := do
  let seat ← w.seats[i]?
  let dictionary ← w.wordStore[seat.words]?
  let words := if shareWords then seat.words else w.wordStore.size
  let memory := Memory.zeros seat.memory.size
  let w' := { w with
    stackStore := w.stackStore.push []
    wordStore := if shareWords then w.wordStore else w.wordStore.push dictionary }
  if seat.hosted then
    return { w' with seats := w'.seats.push ⟨w.stackStore.size, words, seat.console, memory, #[], true⟩ }
  else return w'.seatText w.stackStore.size words memory

/-- Add an interpreter that works on the stack and the dictionary of another one. -/
def spawn (w : Workspace ε) (i : Nat) (memory : Memory) : Option (Workspace ε) := do
  let seat ← w.seats[i]?
  return w.seatText seat.stack seat.words memory

end Workspace
end Forth
