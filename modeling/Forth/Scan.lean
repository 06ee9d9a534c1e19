import Forth.Failure

/-!
Finding the end of a construct. A comment, text, definition, loop or branch runs from the word that opens
it to a closing token of the same nesting level; a `Fence` says which tokens open and close, and what a
colon in between means. Scans look at tokens only: brackets and quotes inside are tokens like others.
-/
namespace Forth

structure ScanError where
  cause : Cause
  passed : Nat
  deriving DecidableEq, Repr

/-- What delimits a construct. An opener begins a level of its own, which the next closer ends. A divider ends the
construct too, but only at the outermost level. A colon is refused if there is a cause for that. -/
structure Fence where
  closer : String
  opener : Option String
  divider : Option String
  unterminated : Cause
  colon : Option Cause
  deriving DecidableEq, Repr

namespace Fence

/-- Whether a token ends the construct when the given number of inner levels is open. -/
def ends (f : Fence) (depth : Nat) (token : String) : Bool :=
  depth = 0 && (token = f.closer || some token = f.divider)

/-- The number of inner levels that are open after a token. -/
def depthAfter (f : Fence) (depth : Nat) (token : String) : Nat :=
  if token = f.closer then depth - 1
  else if some token = f.opener then depth + 1
  else depth

/-- The cause of failure that a token is by itself. -/
def bars (f : Fence) (token : String) : Option Cause :=
  if token = ":" then f.colon else none

/-- The tokens before the one that ends the construct, and that token. -/
def scan (f : Fence) (depth : Nat) : List String → Except ScanError (List String × String)
  | [] => .error ⟨f.unterminated, 0⟩
  | token :: rest =>
    match f.bars token with
    | some cause => .error ⟨cause, 0⟩
    | none =>
      if f.ends depth token then .ok ([], token)
      else match f.scan (f.depthAfter depth token) rest with
        | .ok (inside, last) => .ok (token :: inside, last)
        | .error e => .error { e with passed := e.passed + 1 }

/-- A construct is a beginning of the tokens, up to the token that ends it. -/
theorem scan_eq_append {f : Fence} {depth : Nat} {tokens inside : List String} {last : String}
    (h : f.scan depth tokens = .ok (inside, last)) : ∃ rest, tokens = inside ++ last :: rest := by
  induction tokens generalizing depth inside with
  | nil => simp [scan] at h
  | cons token tokens ih =>
    unfold scan at h
    split at h
    · cases h
    · split at h
      · cases h
        exact ⟨tokens, rfl⟩
      · split at h
        · next e =>
          cases h
          obtain ⟨rest, rfl⟩ := ih e
          exact ⟨rest, rfl⟩
        · cases h

def comment : Fence := ⟨")", none, none, .unterminatedComment, none⟩
def text : Fence := ⟨"\"", none, none, .unterminatedString, none⟩
def definition : Fence := ⟨";", none, none, .unterminatedDefinition, some .nestedDefinition⟩
def loop : Fence := ⟨"loop", some "do", none, .unterminatedLoop, some .definitionInLoop⟩
def consequent : Fence := ⟨"then", some "if", some "else", .unterminatedIf, some .definitionInIf⟩
def alternative : Fence := ⟨"then", some "if", none, .unterminatedElse, some .definitionInElse⟩

end Fence

structure Branches where
  consequent : List String
  alternative : Option (List String)
  deriving DecidableEq, Repr

namespace Branches

/-- How many tokens the branches take up, the closing one included. -/
def width (b : Branches) : Nat :=
  match b.alternative with
  | none => b.consequent.length + 1
  | some alternative => b.consequent.length + 1 + (alternative.length + 1)

def pick (b : Branches) (c : Bool) : List String :=
  if c then b.consequent else b.alternative.getD []

/-- The branches that the tokens after the opening word begin with. -/
def scan (rest : List String) : Except ScanError Branches :=
  match Fence.consequent.scan 0 rest with
  | .error e => .error e
  | .ok (yes, last) =>
    if last = Fence.consequent.closer then .ok ⟨yes, none⟩
    else match Fence.alternative.scan 0 (rest.drop (yes.length + 1)) with
      | .ok (no, _) => .ok ⟨yes, some no⟩
      | .error e => .error { e with passed := yes.length + 1 + e.passed }

end Branches

structure Heading where
  name : String
  effect : String
  body : List String
  deriving DecidableEq, Repr

namespace Heading

/-- Read name, effect comment and body. The comment counts only right after the name. -/
def ofTokens (inside : List String) : Except Cause Heading :=
  match inside with
  | [] => .error .missingName
  | name :: "(" :: rest =>
    match Fence.comment.scan 0 rest with
    | .error e => .error e.cause
    | .ok (effect, _) =>
      .ok ⟨name, Text.strip (Text.spaced effect), rest.drop (effect.length + 1)⟩
  | name :: body => .ok ⟨name, "", body⟩

end Heading
end Forth
