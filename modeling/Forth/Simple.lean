import Forth.Machine
import Forth.Cell

/-!
What the simple words do. A word with operands pops all of them before it does anything else, so one that
finds too few leaves an empty stack and no other trace.
-/
namespace Forth

open Machine

variable {ε : Type}

def binary (f : Int → Int → Int) : Action ε Unit := do
  let b ← pop
  let a ← pop
  push (f a b)

def divide (part : Int × Int → Int) : Action ε Unit := do
  let b ← pop
  let a ← pop
  match Cell.divMod? a b with
  | some qr => push (part qr)
  | none => throw (.cause .divisionByZero)

/-- Ask for lines until one is accepted, with a remark on each that is not. The number bounds the lines
that can come. -/
def readCell (accept : String → Option Int) : Nat → Action ε Int
  | 0 => throw (.cause .inputExhausted)
  | n + 1 => do
    match ← readLine with
    | none => throw (.cause .inputExhausted)
    | some line =>
      if line.isEmpty then
        writeLine "INPUT EMPTY"
        readCell accept n
      else match accept line with
        | some k => pure k
        | none =>
          writeLine "NOT A NUMBER"
          readCell accept n

/-- Push what the first acceptable line of input says. -/
def pushInput (accept : String → Option Int) : Action ε Unit := do
  let n ← readCell accept ((← get).console.source.remaining + 1)
  push n

def firstCode? (line : String) : Option Int :=
  line.toList.head?.map fun c => (c.toNat : Int)

def wholeNumber? (line : String) : Option Int :=
  match Numeral.read line with
  | .value n => some n
  | _ => none

namespace Simple

def act : Simple → Action ε Unit
  | .dup => do
    let a ← pop
    push a
    push a
  | .drop => do
    let _ ← pop
  | .swap => do
    let b ← pop
    let a ← pop
    push b
    push a
  | .over => do
    let b ← pop
    let a ← pop
    push a
    push b
    push a
  | .rot => do
    let c ← pop
    let b ← pop
    let a ← pop
    push b
    push c
    push a
  | .depth => do push (← get).stack.length
  | .isEmpty => do push (Cell.flag (← get).stack.isEmpty)
  | .add => binary (· + ·)
  | .sub => binary (· - ·)
  | .mul => binary (· * ·)
  | .div => divide (·.1)
  | .mod => divide (·.2)
  | .eq => binary fun a b => Cell.flag (a == b)
  | .gt => binary fun a b => Cell.flag (decide (b < a))
  | .lt => binary fun a b => Cell.flag (decide (a < b))
  | .both => binary fun a b => Cell.flag (Cell.truthy a && Cell.truthy b)
  | .either => binary fun a b => Cell.flag (Cell.truthy a || Cell.truthy b)
  | .printChar => do emit (String.singleton (Cell.char (← pop)))
  | .print => do writeNumber (← pop)
  | .printStack => do emit? (← get).stack.listing?
  | .readChar => pushInput firstCode?
  | .readNumber => pushInput wholeNumber?
  | .memoryFetch => do push (← fetch (← pop))
  | .memoryStore => do
    let address ← pop
    let n ← pop
    store address n
  | .memorySize => do push (← get).memory.size

end Simple
end Forth
