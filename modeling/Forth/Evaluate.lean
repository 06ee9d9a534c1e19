import Forth.Lookahead

/-!
Evaluation. A program is a sequence of tokens that is read from left to right; nothing is parsed
beforehand. A token is a number or the name of a word; lookahead words take the tokens they need from
those that follow, and hand bodies and branches to a nested evaluation with no variables of its own yet.

`evaluate limit` nests at most `limit` deep, so it is total; a run that would go deeper ends in
`Halt.overflow`.
-/
namespace Forth

open Machine

abbrev Evaluation (ε α : Type) := EStateM Halt (Scope ε) α

variable {ε : Type} [Host ε]

/-- Run a primitive, given the tokens after it. -/
def Primitive.act (nested : Nested ε) (site : Site) (rest : List String) :
    Primitive ε → Step ε (Move ε)
  | .simple w => do
    Step.act 0 w.act
    pure (.next 0)
  | .lookahead w => do
    pure (.next (← w.act nested site.loop rest))
  | .index =>
    match site.loop with
    | none => Step.fail 0 .indexOutsideLoop
    | some k => do
      Step.act 0 (push k)
      pure (.next 0)
  | .bye => throw ⟨.bye, 0⟩
  | .host w => do
    match ← Host.act w site with
    | none => pure (.next 0)
    | some target => pure (.jump w target)

/-- Evaluate one token, given the tokens after it. -/
def step (nested : Nested ε) (site : Site) (token : String) (rest : List String) :
    Step ε (Move ε) :=
  match Numeral.read token with
  | .value n => do
    Step.act 0 (push n)
    pure (.next 0)
  | .tooLong => throw ⟨.fault .digitLimit, 0⟩
  | .other => do
    match (← get).words.find? token with
    | none => Step.fail 0 (.unknownWord token)
    | some w =>
      match w.code with
      | .definition body => do
        Step.enter nested 0 site.loop body
        pure (.next 0)
      | .primitive p => p.act nested site rest

/-- Whether a word at `pos` that takes `skip` tokens leaves the cursor on the position that ends the
sequence. Only a word that stands before the first token can. -/
def takesToEnd (pos : Int) (skip : Nat) : Bool :=
  skip ≠ 0 && pos + skip = endPosition

theorem takesToEnd_eq_false {pos : Int} (h : 0 ≤ pos) (skip : Nat) : takesToEnd pos skip = false := by
  have : pos + skip ≠ endPosition := by simp only [endPosition]; omega
  simp [takesToEnd, this]

/-- Evaluate the tokens `rest` of a sequence, which start at position `pos`, except the first `skip` of
them. A jump out of the walk is the result. -/
def walk (nested : Nested ε) (loop : Option Int) (tokens : List String) :
    (skip : Nat) → (pos : Int) → (rest : List String) →
      Evaluation ε (Option (ε × Int))
  | _, _, [] => pure none
  | skip + 1, pos, _ :: rest => walk nested loop tokens skip (pos + 1) rest
  | 0, pos, token :: rest => fun s =>
    match step nested ⟨tokens, pos, loop⟩ token rest s with
    | .ok (.next skip) s =>
      if takesToEnd pos skip then .error .bye s
      else walk nested loop tokens skip (pos + 1) rest s
    | .ok (.jump w target) s => .ok (some (w, target)) s
    | .error b s => .error (b.annotate tokens pos) s

/-- The tokens from a position on. Positions before the first token count from the end, and lead through
the whole sequence again. -/
def tokensFrom? (tokens : List String) (pos : Int) : Option (List String) :=
  if 0 ≤ pos then some (tokens.drop pos.toNat)
  else if 0 ≤ pos + tokens.length then
    some (tokens.drop (pos + tokens.length).toNat ++ tokens)
  else none

/-- Evaluate a sequence from a position on, through at most `jumps` jumps of host words. -/
def travel (nested : Nested ε) (loop : Option Int) (tokens : List String) :
    (jumps : Nat) → (pos : Int) → Evaluation ε Unit
  | jumps, pos => do
    match tokensFrom? tokens pos with
    | none => throw (.fault .indexOutOfRange)
    | some rest =>
      match ← walk nested loop tokens 0 pos rest with
      | none => pure ()
      | some (_, target) =>
        if target = endPosition then throw .bye
        else match jumps with
          | 0 => throw (.fault .wandering)
          | jumps + 1 => travel nested loop tokens jumps (target + 1)

/-- How often host words may move the cursor in one sequence. -/
def jumpLimit : Nat := 1000000

/-- An evaluation that starts without variables and whose `bye` ends nothing else. -/
def isolated (e : Evaluation ε Unit) : EStateM Halt (Machine ε) Unit := fun m =>
  match e ⟨m, []⟩ with
  | .ok () s => .ok () s.toMachine
  | .error .bye s => .ok () s.toMachine
  | .error halt s => .error halt s.toMachine

/-- Evaluate a sequence of tokens under a loop index, nesting at most `limit` deep. -/
def evaluate : (limit : Nat) → (loop : Option Int) → (tokens : List String) → Evaluation ε Unit
  | 0, _, _ => throw .overflow
  | limit + 1, loop, tokens =>
    travel (fun loop tokens => isolated (evaluate limit loop tokens)) loop tokens jumpLimit 0

end Forth
