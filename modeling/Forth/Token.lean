import Forth.Text.Blank

/-!
Programs as token sequences, and the piece of a sequence that an error message shows.
-/
namespace Forth

/-- The tokens of a text: its maximal runs of characters other than space, tab, carriage return and
line feed. Quotes and brackets mean nothing here. -/
def tokenize (text : String) : List String :=
  (Text.runs Text.isDelimiter text.toList).map String.ofList

/-- The index that stands for position `pos` when it may lie outside a sequence of `len` tokens. -/
def clampIndex (len : Nat) (pos : Int) : Nat :=
  min pos.toNat (len - 1)

/-- The token at `pos` between marks, with its neighbours. A position outside the sequence shows the
nearest token. -/
def formatContext (tokens : List String) (pos : Int) : String :=
  let i := clampIndex tokens.length pos
  match tokens[i]? with
  | none => ">><<"
  | some token =>
    let left := if i = 0 then [] else (tokens[i - 1]?).toList
    Text.spaced (left ++ [">>" ++ token ++ "<<"] ++ (tokens[i + 1]?).toList)

end Forth
