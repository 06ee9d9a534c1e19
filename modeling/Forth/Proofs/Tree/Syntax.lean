import Forth.Standard

/-!
# Structured programs

Programs as trees. Constructs nest only as wholes, a text ends where its closing token stands, and words
are defined at the top level only. The interpreter has no such trees: it sees the tokens that
`flatten` leaves.
-/
namespace Forth.Tree

/-- The tokens that the scans for the end of a definition, a branch or a loop look at. -/
def structuralTokens : List String := [":", ";", "if", "else", "then", "do", "loop"]

/-- The tokens that are no words by themselves. -/
def reservedTokens : List String :=
  structuralTokens ++ ["(", ")", ".\"", "\"", "variable", "@", "$"]

structure Literal where
  token : String
  isNumber : Numeral.read token ≠ .other

structure Name where
  token : String
  notNumber : Numeral.read token = .other
  notReserved : token ∉ reservedTokens

structure Identifier where
  token : String
  inert : token ∉ structuralTokens

structure Part (closer : String) where
  token : String
  inert : token ∉ structuralTokens
  notCloser : token ≠ closer

abbrev Part.tokens {closer : String} (ws : List (Part closer)) : List String := ws.map (·.token)

inductive Item where
  | literal (n : Literal)
  | word (w : Name)
  | comment (ws : List (Part ")"))
  | say (ws : List (Part "\""))
  | ifThen (yes : List Item)
  | ifElse (yes no : List Item)
  | loop (body : List Item)
  | declare (x : Identifier)
  | recall (x : Identifier)
  | assign (x : Identifier)

/-- A definition. A comment right after its name is its effect, so a body without an effect before it
does not start with a comment. -/
structure Definition where
  name : String
  effect : Option (List (Part ")"))
  body : List Item
  notColon : name ≠ ":"
  notSemicolon : name ≠ ";"
  opens : effect = none → ∀ ws rest, body ≠ .comment ws :: rest

inductive Phrase where
  | item (x : Item)
  | define (d : Definition)

mutual

def Item.flatten : Item → List String
  | .literal n => [n.token]
  | .word w => [w.token]
  | .comment ws => "(" :: (Part.tokens ws ++ [")"])
  | .say ws => ".\"" :: (Part.tokens ws ++ ["\""])
  | .ifThen yes => "if" :: (flattenAll yes ++ ["then"])
  | .ifElse yes no => "if" :: (flattenAll yes ++ "else" :: (flattenAll no ++ ["then"]))
  | .loop body => "do" :: (flattenAll body ++ ["loop"])
  | .declare x => ["variable", x.token]
  | .recall x => ["@", x.token]
  | .assign x => ["$", x.token]

def flattenAll : List Item → List String
  | [] => []
  | x :: xs => x.flatten ++ flattenAll xs

end

namespace Definition

def effectTokens (d : Definition) : List String :=
  match d.effect with
  | none => []
  | some ws => "(" :: (Part.tokens ws ++ [")"])

/-- The effect as the dictionary has it. -/
def effectText (d : Definition) : String :=
  match d.effect with
  | none => ""
  | some ws => Text.strip (Text.spaced (Part.tokens ws))

def flatten (d : Definition) : List String :=
  ":" :: d.name :: (d.effectTokens ++ flattenAll d.body ++ [";"])

end Definition

def Phrase.flatten : Phrase → List String
  | .item x => x.flatten
  | .define d => d.flatten

def flatten (program : List Phrase) : List String := program.flatMap Phrase.flatten

end Forth.Tree
