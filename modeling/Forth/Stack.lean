import Forth.Cell
import Forth.Failure

/-!
The data stack: a list of cells, the top one first. Listings show it the other way round.
-/
namespace Forth

/-- The cells of a stack, the top one first. -/
abbrev Stack := List Int

namespace Stack

/-- The cells as a listing shows them, the bottom one first. -/
def bottomUp (s : Stack) : List Int := s.reverse

def ofBottomUp (cells : List Int) : Stack := cells.reverse

def pop (s : Stack) : Except Trouble (Int × Stack) :=
  match s with
  | [] => .error (.cause .stackUnderflow)
  | n :: rest => .ok (n, rest)

/-- Take out the cell at an index that counts from the bottom, or from the top if it is negative. -/
def removeAt (s : Stack) (i : Int) : Except Trouble (Int × Stack) :=
  if s.isEmpty then .error (.cause .stackUnderflow)
  else if !Cell.fitsWord i then .error (.fault .beyondWord)
  else
    let k : Int := if i < 0 then -1 - i else s.length - 1 - i
    if k < 0 then .error (.fault .indexOutOfRange)
    else match s[k.toNat]? with
      | none => .error (.fault .indexOutOfRange)
      | some n => .ok (n, s.eraseIdx k.toNat)

def peek (s : Stack) : Except Trouble Int :=
  s.pop.map (·.1)

def drop (s : Stack) : Except Trouble Stack :=
  s.pop.map (·.2)

def dup (s : Stack) : Except Trouble Stack :=
  s.pop.map fun (n, rest) => n :: n :: rest

/-- How many cells there are, and each of them followed by a space. -/
def listing? (s : Stack) : Option String :=
  (Numeral.texts? s.bottomUp).map fun cells =>
    "<" ++ s.length.repr ++ "> " ++ String.join (cells.map (· ++ " "))

/-- How many cells there are, and all of them with a space between neighbours. -/
def summary? (s : Stack) : Option String :=
  (Numeral.texts? s.bottomUp).map fun cells => "<" ++ s.length.repr ++ "> " ++ Text.spaced cells

end Stack
end Forth
