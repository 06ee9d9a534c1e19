/-!
Blank characters, and the pieces of text between them. Two classes matter: the four characters that
separate the tokens of a program, and Unicode white space, at which names typed at a prompt are
trimmed and split.
-/
namespace Forth.Text

/-- The characters between two tokens: space, tab, carriage return and line feed. -/
def isDelimiter (c : Char) : Bool :=
  c = ' ' || c = '\t' || c = '\r' || c = '\n'

/-- Unicode white space. The zero-width space and the byte-order mark are not in it. -/
def isBlank (c : Char) : Bool :=
  let n := c.toNat
  (0x09 ≤ n && n ≤ 0x0D) || (0x1C ≤ n && n ≤ 0x20) || n = 0x85 || n = 0xA0 || n = 0x1680 ||
    (0x2000 ≤ n && n ≤ 0x200A) || n = 0x2028 || n = 0x2029 || n = 0x202F || n = 0x205F || n = 0x3000

/-- Close the run that is open at the left end of `words`, if there is one. -/
def closeRun (run : List Char) (words : List (List Char)) : List (List Char) :=
  match run with
  | [] => words
  | c :: cs => (c :: cs) :: words

/-- Read one more character from the left: a separator closes the open run, any other extends it. -/
def runStep (separates : Char → Bool) (c : Char) (p : List Char × List (List Char)) :
    List Char × List (List Char) :=
  if separates c then ([], closeRun p.1 p.2) else (c :: p.1, p.2)

/-- The maximal runs of characters that do not separate, from left to right. -/
def runs (separates : Char → Bool) (cs : List Char) : List (List Char) :=
  let p := cs.foldr (runStep separates) ([], [])
  closeRun p.1 p.2

def words (text : String) : List String :=
  (runs isBlank text.toList).map String.ofList

def stripChars (cs : List Char) : List Char :=
  ((cs.dropWhile isBlank).reverse.dropWhile isBlank).reverse

def strip (text : String) : String :=
  String.ofList (stripChars text.toList)

def spaced (parts : List String) : String :=
  String.intercalate " " parts

end Forth.Text
