/-!
Cells are unbounded integers. A cell serves as a truth value too: zero is false, anything else true,
and words that answer a question leave -1 or 0. Division goes toward zero. Sizes and list positions are
bounded: they have to fit into a signed word of 64 bits.
-/
namespace Forth.Cell

def flag (b : Bool) : Int := if b then -1 else 0

def truthy (n : Int) : Bool := n != 0

/-- The quotient toward zero: that of the sizes, with a minus if the signs differ. The sign of zero is that of
the positive numbers. -/
def truncDiv (a b : Int) : Int :=
  let q : Int := (a.natAbs / b.natAbs : Nat)
  if decide (a < 0) = decide (b < 0) then q else -q

/-- What the quotient leaves over. -/
def truncMod (a b : Int) : Int := a - b * truncDiv a b

def divMod? (a b : Int) : Option (Int × Int) :=
  if b = 0 then none else some (truncDiv a b, truncMod a b)

/-- The character a cell prints as: out-of-range cells give the nearest of the 256 codes. -/
def char (n : Int) : Char := Char.ofNat (min n.toNat 255)

def fitsWord (n : Int) : Bool :=
  decide (-9223372036854775808 ≤ n) && decide (n ≤ 9223372036854775807)

end Forth.Cell
