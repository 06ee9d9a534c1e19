import Forth.Step

/-!
What the lookahead words do. Each takes its tokens from those after it, checks, and only then changes
anything, so one that fails by itself leaves the state as it was.
-/
namespace Forth

open Machine

variable {ε : Type}

namespace Lookahead

open Step

/-- Evaluate a body the given number of times, with loop indices from `k` on. -/
def turns (nested : Nested ε) (offset : Int) (body : List String) : Nat → Nat → Step ε Unit
  | 0, _ => pure ()
  | n + 1, k => do
    enter nested offset (some k) body
    turns nested offset body n (k + 1)

def identifier : List String → Step ε String
  | [] => fail 1 .missingIdentifier
  | name :: _ => pure name

/-- The identifier after the word, which has to be a variable, with its value. -/
def variableNamed (rest : List String) : Step ε (String × Int) := do
  let name ← identifier rest
  let s ← get
  if s.words.contains name then fail 1 (.notAVariable name)
  else match s.vars.get? name with
    | none => fail 1 (.unknownVariable name)
    | some n => pure (name, n)

def setVariable (name : String) (n : Int) : Step ε Unit :=
  modify fun s => { s with vars := s.vars.set name n }

/-- Do what the word does, given the tokens after it; the result is how many of them it takes. All the
scanning and checking comes before the first change. -/
def act (nested : Nested ε) (loop : Option Int) (rest : List String) : Lookahead → Step ε Nat
  | .comment => do
    let (inside, _) ← scanned (Fence.comment.scan 0 rest)
    pure (inside.length + 1)
  | .say => do
    let (inside, _) ← scanned (Fence.text.scan 0 rest)
    Step.act (inside.length + 1) (writeLine (Text.strip (Text.spaced inside)))
    pure (inside.length + 1)
  | .colon => do
    let (inside, _) ← scanned (Fence.definition.scan 0 rest)
    let width := inside.length + 1
    match Heading.ofTokens inside with
    | .error c => fail width c
    | .ok h =>
      if (← get).vars.contains h.name then fail width (.nameIsVariable h.name)
      Step.act width (define h.name h.body h.effect)
      pure width
  | .choose => do
    let b ← scanned (Branches.scan rest)
    let n ← Step.act b.width pop
    enter nested b.width loop (b.pick (Cell.truthy n))
    pure b.width
  | .loop => do
    let (body, _) ← scanned (Fence.loop.scan 0 rest)
    let width := body.length + 1
    let n ← Step.act width pop
    turns nested width body n.toNat 0
    pure width
  | .declare => do
    let name ← identifier rest
    let s ← get
    if s.words.contains name then fail 1 (.nameIsWord name)
    if s.vars.contains name then fail 1 (.nameIsVariable name)
    let n ← Step.act 1 pop
    setVariable name n
    modify fun s => { s with toMachine := s.toMachine.note (.declared name n) }
    pure 1
  | .recall => do
    let (_, n) ← variableNamed rest
    Step.act 1 (push n)
    pure 1
  | .assign => do
    let (name, _) ← variableNamed rest
    let n ← Step.act 1 pop
    setVariable name n
    pure 1

end Lookahead

end Forth
