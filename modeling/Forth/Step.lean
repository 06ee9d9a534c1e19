import Forth.Simple
import Forth.Scan
import Forth.Token

/-!
What a single word may do: change the state of its sequence, evaluate an inner sequence, move on by some
tokens, or end the evaluation with a failure that points at one of the tokens around it.
-/
namespace Forth

structure Site where
  tokens : List String
  pos : Int
  loop : Option Int
  deriving DecidableEq, Repr

inductive Halt where
  | bye
  | failed (f : Failure)
  | fault (f : Fault)
  | overflow
  deriving DecidableEq, Repr

/-- How a word ends the evaluation. A failure points at the token `offset` places after the word. -/
structure Break where
  halt : Halt
  offset : Int
  deriving DecidableEq, Repr

namespace Break

def ofTrouble (offset : Int) : Trouble → Break
  | .cause c => ⟨.failed ⟨c, []⟩, offset⟩
  | .fault f => ⟨.fault f, offset⟩

/-- What the evaluation ends with: a failure takes along the context of the token it points at. -/
def annotate (b : Break) (tokens : List String) (pos : Int) : Halt :=
  match b.halt with
  | .failed f => .failed (f.addContext (formatContext tokens (pos + b.offset)))
  | halt => halt

end Break

abbrev Step (ε α : Type) := EStateM Break (Scope ε) α

/-- Evaluation of an inner sequence under a loop index, out of reach of the variables outside. -/
abbrev Nested (ε : Type) := Option Int → List String → EStateM Halt (Machine ε) Unit

/-- The position that stands for the end of a sequence. -/
def endPosition : Int := -1

/-- The behaviour of host words: what each does where it stands, and the position it moves the cursor
to, if it moves it. Evaluation goes on after that position; `endPosition` ends it. -/
class Host (ε : Type) where
  act : ε → Site → Step ε (Option Int)

instance : Host Empty := ⟨fun w _ => nomatch w⟩

inductive Move (ε : Type) where
  | next (skip : Nat)
  | jump (w : ε) (target : Int)

variable {ε : Type}

namespace Step

/-- An action of the machine; if it goes wrong, the failure points `offset` places after the word. -/
def act (offset : Int) {α : Type} (a : Action ε α) : Step ε α := fun ⟨m, vars⟩ =>
  match a m with
  | .ok x m => .ok x ⟨m, vars⟩
  | .error t m => .error (.ofTrouble offset t) ⟨m, vars⟩

def fail {α : Type} (offset : Int) (c : Cause) : Step ε α :=
  throw (.ofTrouble offset (.cause c))

def scanned {α : Type} : Except ScanError α → Step ε α
  | .ok x => pure x
  | .error e => fail (1 + e.passed) e.cause

def enter (nested : Nested ε) (offset : Int) (loop : Option Int) (tokens : List String) :
    Step ε Unit := fun ⟨m, vars⟩ =>
  match nested loop tokens m with
  | .ok () m => .ok () ⟨m, vars⟩
  | .error halt m => .error ⟨halt, offset⟩ ⟨m, vars⟩

end Step

end Forth
