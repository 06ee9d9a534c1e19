import Forth.Interpreter

/-!
The standard words: the primitives with their names and stack effects, and the words defined from them in
the language itself.
-/
namespace Forth

/-- Effects that many words share. -/
def Effect.none : String := "--"
def Effect.takes : String := "n --"
def Effect.gives : String := "-- n"

/-- Name, effect and behaviour of every primitive. -/
def standardPrimitives {ε : Type} : List (String × String × Primitive ε) :=
  [("dup", "n -- n n", .simple .dup),
   ("drop", Effect.takes, .simple .drop),
   ("swap", "a b -- b a", .simple .swap),
   ("over", "a b -- a b a", .simple .over),
   ("rot", "a b c -- b c a", .simple .rot),
   ("depth", Effect.gives, .simple .depth),
   ("empty", Effect.gives, .simple .isEmpty),
   ("+", "a b -- a+b", .simple .add),
   ("-", "a b -- a-b", .simple .sub),
   ("*", "a b -- a*b", .simple .mul),
   ("/", "a b -- a/b", .simple .div),
   ("mod", "a b -- a%b", .simple .mod),
   ("=", "n n -- n==n", .simple .eq),
   (">", "n n -- n>n", .simple .gt),
   ("<", "n n -- n<n", .simple .lt),
   ("and", "f f -- f", .simple .both),
   ("or", "f f -- f", .simple .either),
   ("emit", Effect.takes, .simple .printChar),
   (".", Effect.takes, .simple .print),
   (".s", Effect.none, .simple .printStack),
   ("input", Effect.gives, .simple .readChar),
   ("inputn", Effect.gives, .simple .readNumber),
   ("mem@", "addr -- n", .simple .memoryFetch),
   ("mem!", "n addr --", .simple .memoryStore),
   ("memsize", Effect.gives, .simple .memorySize),
   ("(", Effect.none, .lookahead .comment),
   (":", Effect.none, .lookahead .colon),
   ("if", Effect.takes, .lookahead .choose),
   ("do", Effect.takes, .lookahead .loop),
   ("index", Effect.gives, .index),
   (".\"", Effect.none, .lookahead .say),
   ("variable", Effect.takes, .lookahead .declare),
   ("@", Effect.gives, .lookahead .recall),
   ("$", Effect.takes, .lookahead .assign),
   ("bye", Effect.none, .bye)]

def primitiveWords {ε : Type} : Dictionary ε :=
  ⟨standardPrimitives.map fun (name, effect, p) => ⟨name, effect, .primitive p⟩⟩

/-- The words that are defined in the language, a line for each. -/
def compositeSource : List String :=
  [": invert ( n -- !n ) 0 = if -1 else 0 then ;",
   ": != ( n n -- n!=n ) = invert ;",
   ": >= ( n n -- n>=n ) < invert ;",
   ": <= ( n n -- n<=n ) > invert ;",
   ": 0= ( n -- n==0 ) 0 = ;",
   ": cr ( -- ) 10 emit ;",
   ": bl ( -- ) 32 emit ;",
   ": nop ( -- ) ;",
   ": negate ( n -- -n ) 0 swap - ;",
   ": abs ( n -- |n| ) dup 0 < if negate then ;",
   ": empty? ( -- flag ) depth 0= ;",
   ": dump ( -- ) .s cr ;"]

variable {ε : Type} [Host ε]

/-- The machine that the composite words are defined on: primitives, no memory, nobody listening. -/
def bootMachine : Machine ε where
  stack := []
  memory := .zeros 0
  words := primitiveWords
  console := .ofText ""
  journal := #[]

/-- The machine on which the composite words have been defined. -/
def booted : Machine ε :=
  match interpret none (compositeSource.flatMap tokenize) ⟨bootMachine, []⟩ with
  | .ok () s => s.toMachine
  | .error _ s => s.toMachine

def standardWords : Dictionary ε := (@booted ε _).words

/-- A machine that has run nothing yet: standard words, empty stack, zeroed memory. -/
def Machine.fresh (memory : Memory) (console : Console) : Machine ε :=
  { (@booted ε _) with stack := [], memory, console }

end Forth
