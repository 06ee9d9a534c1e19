import Forth.Decimal
import Forth.Text.Digit
import Forth.Text.Blank

/-!
Integers as text. A literal is an optional sign and one or more ASCII digits, and nothing else; numbers
with more than `digitLimit` digits can be neither read nor written. What is written reads back
(`read_text`).

Counts, which are typed as options and arguments of commands, have a looser grammar: white space
around the number, digits of any script, and single underscores between digits.
-/
namespace Forth.Numeral

/-- The most digits a number may have as text. -/
def digitLimit : Nat := 4300

inductive Reading where
  | other
  | tooLong
  | value (n : Int)
  deriving DecidableEq, Repr

/-- Cut off a sign; `true` stands for a minus. -/
def splitSign : List Char → Bool × List Char
  | '-' :: ds => (true, ds)
  | '+' :: ds => (false, ds)
  | ds => (false, ds)

def isDigits (ds : List Char) : Bool :=
  !ds.isEmpty && ds.all Char.isDigit

def applySign (negative : Bool) (n : Nat) : Int :=
  if negative then -(n : Int) else n

def readChars (cs : List Char) : Reading :=
  let (negative, ds) := splitSign cs
  if !isDigits ds then .other
  else if digitLimit < ds.length then .tooLong
  else .value (applySign negative (Decimal.value ds))

def read (token : String) : Reading :=
  readChars token.toList

/-- The decimal text of an integer, however long. -/
def text (n : Int) : String :=
  let ds := Decimal.digits n.natAbs
  String.ofList (if n < 0 then '-' :: ds else ds)

/-- The first number with too many digits. -/
def textBound : Nat := Decimal.firstLonger digitLimit

/-- The decimal text of an integer, unless it has too many digits. Its size alone decides that, so a number
that is too long is never written. -/
def text? (n : Int) : Option String :=
  if n.natAbs < textBound then some (text n) else none

def texts? (ns : List Int) : Option (List String) :=
  ns.mapM text?

theorem splitSign_of_isDigits {ds : List Char} (h : isDigits ds = true) :
    splitSign ds = (false, ds) := by
  unfold splitSign
  split <;> simp_all [isDigits]

theorem isDigits_toDigits (n : Nat) : isDigits (Nat.toDigits 10 n) = true := by
  simp only [isDigits, Bool.and_eq_true, Bool.not_eq_true', List.isEmpty_eq_false_iff,
    List.all_eq_true]
  exact ⟨Nat.toDigits_ne_nil, fun _ h => Nat.isDigit_of_mem_toDigits (by decide) (by decide) h⟩

theorem lt_textBound_iff {n : Nat} : n < textBound ↔ (Nat.toDigits 10 n).length ≤ digitLimit :=
  Decimal.lt_firstLonger_iff (by decide)

/-- What is written for a number that is not too long reads back as that number. -/
theorem read_text {n : Int} (h : n.natAbs < textBound) : read (text n) = .value n := by
  have hd := isDigits_toDigits n.natAbs
  have hv : Decimal.value (Nat.toDigits 10 n.natAbs) = n.natAbs := by
    rw [← Decimal.digits_eq_toDigits, Decimal.value_digits]
  have hl := lt_textBound_iff.1 h
  rw [read, text, Decimal.digits_eq_toDigits, String.toList_ofList]
  split
  · have : applySign true n.natAbs = n := by simp only [applySign, if_true]; omega
    simp only [readChars, splitSign, hd, hv, this, Nat.not_lt.2 hl, Bool.not_true, Bool.false_eq_true,
      if_false]
  · have : applySign false n.natAbs = n := by simp [applySign]; omega
    simp only [readChars, splitSign_of_isDigits hd, hd, hv, this, Nat.not_lt.2 hl, Bool.not_true,
      Bool.false_eq_true, if_false]

/-! ### Counts -/

/-- White space that may stand around a count. -/
def isPadding (c : Char) : Bool :=
  Text.isBlank c && !(0x1C ≤ c.toNat && c.toNat ≤ 0x1F)

/-- The values of digits that single underscores may separate; `none` if anything else is met. -/
def countDigits? : List Char → Option (List Nat)
  | [] => none
  | [c] => (Text.digitValue? c).map ([·])
  | c :: '_' :: rest => do return (← Text.digitValue? c) :: (← countDigits? rest)
  | c :: rest => do return (← Text.digitValue? c) :: (← countDigits? rest)

def readCount? (text : String) : Option Int := do
  let cs := ((text.toList.dropWhile isPadding).reverse.dropWhile isPadding).reverse
  let (negative, rest) := splitSign cs
  let ds ← countDigits? rest
  if digitLimit < ds.length then none
  else some (applySign negative (ds.foldl (fun n d => 10 * n + d) 0))

end Forth.Numeral
