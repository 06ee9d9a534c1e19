/-!
Words. A word has a name, a stack effect that is documentation only, and code: a primitive, or the tokens
of a definition. Primitives come in three groups. A simple word works on stack, memory and console
alone; a lookahead word also reads the tokens that follow it; a host word, of a type `ε` that the
embedding program chooses, may do anything, the cursor included. A vocabulary without host words is one
over `Empty`.
-/
namespace Forth

inductive Simple where
  | dup | drop | swap | over | rot | depth | isEmpty
  | add | sub | mul | div | mod
  | eq | gt | lt | both | either
  | print | printChar | printStack | readChar | readNumber
  | memoryFetch | memoryStore | memorySize
  deriving DecidableEq, Repr

inductive Lookahead where
  | comment
  | colon
  | choose
  | loop
  | say
  | declare
  | recall
  | assign
  deriving DecidableEq, Repr

inductive Primitive (ε : Type) where
  | simple (w : Simple)
  | lookahead (w : Lookahead)
  | index
  | bye
  | host (w : ε)
  deriving DecidableEq, Repr

inductive Code (ε : Type) where
  | primitive (p : Primitive ε)
  | definition (body : List String)
  deriving DecidableEq, Repr

structure Word (ε : Type) where
  name : String
  effect : String
  code : Code ε
  deriving DecidableEq, Repr

namespace Word

variable {ε : Type}

def isPrimitive (w : Word ε) : Bool :=
  match w.code with
  | .primitive _ => true
  | .definition _ => false

/-- The tokens of a definition; a primitive has none. -/
def body (w : Word ε) : List String :=
  match w.code with
  | .primitive _ => []
  | .definition body => body

def className (w : Word ε) : String :=
  if w.isPrimitive then "PRIMITIVE" else "DEFINITION"

/-- The name, followed by the effect in brackets unless it is empty. -/
def heading (w : Word ε) : String :=
  if w.effect.isEmpty then w.name else w.name ++ " ( " ++ w.effect ++ " )"

def source (w : Word ε) : String :=
  match w.code with
  | .primitive _ => "primitive " ++ w.heading
  | .definition body => String.intercalate " " ([":", w.heading] ++ body ++ [";"])

end Word
end Forth
