import Forth.Cell
import Forth.Failure

/-!
A memory region: a fixed number of cells, all zero at first, addressed from zero.
-/
namespace Forth

structure Memory where
  cells : Array Int
  deriving DecidableEq, Repr

namespace Memory

def defaultSize : Nat := 128

def zeros (size : Nat) : Memory := ⟨Array.replicate size 0⟩

/-- A fresh region of a size that may have been given negative or too large. How many cells there is `room` for is a
matter of the computer. -/
def ofSize (room : Nat) (size : Int) : Except Fault Memory :=
  if size < 0 then .error .negativeSize
  else if !Cell.fitsWord size then .error .beyondWord
  else if room < size then .error .outOfMemory
  else .ok (zeros size.toNat)

def size (m : Memory) : Nat := m.cells.size

/-- An address, if it is one. The complaint shows the address, so it must not have too many digits. -/
def check (m : Memory) (address : Int) : Except Trouble Nat :=
  if 0 ≤ address ∧ address < m.size then .ok address.toNat
  else match Numeral.text? address with
    | none => .error (.fault .digitLimit)
    | some _ => .error (.cause (.addressOutOfRange address m.size))

def fetch (m : Memory) (address : Int) : Except Trouble Int :=
  (m.check address).map fun i => m.cells.getD i 0

def put (m : Memory) (i : Nat) (n : Int) : Memory := ⟨m.cells.setIfInBounds i n⟩

def store (m : Memory) (address n : Int) : Except Trouble Memory :=
  (m.check address).map fun i => m.put i n

theorem size_put (m : Memory) (i : Nat) (n : Int) : (m.put i n).size = m.size := by
  simp [put, size]

end Memory
end Forth
