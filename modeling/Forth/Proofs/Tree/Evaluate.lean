import Forth.Proofs.Tree.Syntax

/-!
# Evaluating trees

The plain semantics of structured programs. A call, the chosen branch and each turn of a loop evaluate a
subtree with variables of its own, and `bye` ends only the subtree it stands in. There are no tokens, no
cursor and no contexts here; dictionaries hold trees.
-/
namespace Forth.Tree

structure State where
  stack : Stack
  memory : Memory
  words : List Definition
  console : Console
  vars : Variables

inductive Halt where
  | bye
  | trouble (t : Trouble)
  | overflow

abbrev Run := EStateM Halt State Unit

abbrev Nested := Option Int → List Item → Run

def primitive? (name : String) : Option (Primitive Empty) :=
  (standardPrimitives.lookup name).map (·.2)

def definition? (words : List Definition) (name : String) : Option Definition :=
  words.find? fun d => d.name == name

def isWord (words : List Definition) (name : String) : Bool :=
  (primitive? name).isSome || (definition? words name).isSome

def trouble {α : Type} (t : Trouble) : EStateM Halt State α := throw (.trouble t)

def fail {α : Type} (c : Cause) : EStateM Halt State α := trouble (.cause c)

def push (n : Int) : Run := modify fun t => { t with stack := n :: t.stack }

def pop : EStateM Halt State Int := fun t =>
  match t.stack with
  | [] => fail .stackUnderflow t
  | n :: below => .ok n { t with stack := below }

def setVariable (name : String) (n : Int) : Run :=
  modify fun t => { t with vars := t.vars.set name n }

/-- Run an action that works on stack, memory and console alone. -/
def act (a : Action Empty Unit) : Run := fun t =>
  match a ⟨t.stack, t.memory, .empty, t.console, #[]⟩ with
  | .ok () m => .ok () { t with stack := m.stack, memory := m.memory, console := m.console }
  | .error e m =>
    .error (.trouble e) { t with stack := m.stack, memory := m.memory, console := m.console }

def valueOf (name : String) : EStateM Halt State Int := do
  let t ← get
  if isWord t.words name then fail (.notAVariable name)
  else match t.vars.get? name with
    | none => fail (.unknownVariable name)
    | some n => pure n

/-- Evaluate a word. Those that look ahead have a syntax of their own, so no `Name` stands for one. -/
def call (nested : Nested) (loop : Option Int) (name : String) : Run := do
  match primitive? name with
  | some (.simple w) => act w.act
  | some .index =>
    match loop with
    | none => fail .indexOutsideLoop
    | some k => push k
  | some .bye => throw .bye
  | some (.lookahead _) => pure ()
  | none =>
    match definition? (← get).words name with
    | none => fail (.unknownWord name)
    | some d => nested loop d.body

def turns (nested : Nested) (body : List Item) : Nat → Nat → Run
  | 0, _ => pure ()
  | n + 1, k => do
    nested (some k) body
    turns nested body n (k + 1)

def Item.run (nested : Nested) (loop : Option Int) : Item → Run
  | .literal n =>
    match Numeral.read n.token with
    | .value k => push k
    | _ => trouble (.fault .digitLimit)
  | .word w => call nested loop w.token
  | .comment _ => pure ()
  | .say ws => act (Machine.writeLine (Text.strip (Text.spaced (Part.tokens ws))))
  | .ifThen yes => do
    let n ← pop
    nested loop (if Cell.truthy n then yes else [])
  | .ifElse yes no => do
    let n ← pop
    nested loop (if Cell.truthy n then yes else no)
  | .loop body => do
    let n ← pop
    turns nested body n.toNat 0
  | .declare x => do
    let t ← get
    if isWord t.words x.token then fail (.nameIsWord x.token)
    else if t.vars.contains x.token then fail (.nameIsVariable x.token)
    else
      let n ← pop
      setVariable x.token n
  | .recall x => do
    let n ← valueOf x.token
    push n
  | .assign x => do
    let _ ← valueOf x.token
    let n ← pop
    setVariable x.token n

def Definition.run (d : Definition) : Run := do
  let t ← get
  if t.vars.contains d.name then fail (.nameIsVariable d.name)
  else if isWord t.words d.name then fail (.duplicateDefinition d.name)
  else set { t with words := t.words ++ [d] }

def Phrase.run (nested : Nested) (loop : Option Int) : Phrase → Run
  | .item x => x.run nested loop
  | .define d => d.run

def isolated (e : Run) : Run := fun t =>
  match e { t with vars := [] } with
  | .ok () t' => .ok () { t' with vars := t.vars }
  | .error .bye t' => .ok () { t' with vars := t.vars }
  | .error h t' => .error h { t' with vars := t.vars }

def evaluate : (limit : Nat) → (loop : Option Int) → List Item → Run
  | 0, _, _ => throw .overflow
  | limit + 1, loop, items =>
    items.forM (Item.run (fun loop body => isolated (evaluate limit loop body)) loop)

def inside (limit : Nat) : Nested := fun loop body => isolated (evaluate limit loop body)

def interpretWithin (limit : Nat) (loop : Option Int) (program : List Phrase) :
    EStateM Trouble State Unit := fun t =>
  let result : EStateM.Result Halt State Unit :=
    match limit with
    | 0 => .error .overflow t
    | limit + 1 => program.forM (Phrase.run (inside limit) loop) t
  match result with
  | .ok () t => .ok () t
  | .error .bye t => .ok () t
  | .error (.trouble e) t => .error e t
  | .error .overflow t => .error (.cause .returnStackOverflow) t

end Forth.Tree
