import Forth.Standard

/-!
The program's tests of itself: named checks in suites, and suites in collections. A check is run when it
is asked for, and a dotted name selects a collection, a suite of it or a single check.
-/
namespace Forth.SelfTest

structure Check where
  name : String
  passes : Unit → Bool

structure Suite where
  name : String
  checks : List Check

structure Collection where
  name : String
  suites : List Suite

structure Result where
  name : String
  passed : Bool
  deriving DecidableEq, Repr

def Suite.run (s : Suite) (collection : String) : List Result :=
  (s.checks.mergeSort fun a b => decide (a.name ≤ b.name)).map fun c =>
    ⟨collection ++ "." ++ s.name ++ "." ++ c.name, c.passes ()⟩

def Collection.run (c : Collection) : List Result :=
  (c.suites.mergeSort fun a b => decide (a.name ≤ b.name)).flatMap fun s => s.run c.name

/-- Run what a dotted name selects. A name that selects nothing has no results. -/
def runNamed (collections : List Collection) (name : String) : List Result :=
  match name.splitOn "." with
  | [c] => (collections.filter fun x => x.name == c).flatMap Collection.run
  | [c, s] =>
    (collections.filter fun x => x.name == c).flatMap fun x =>
      (x.suites.filter fun y => y.name == s).flatMap fun y => y.run x.name
  | [c, s, k] =>
    (collections.filter fun x => x.name == c).flatMap fun x =>
      (x.suites.filter fun y => y.name == s).flatMap fun y =>
        (Suite.mk y.name (y.checks.filter fun z => z.name == k)).run x.name
  | _ => []

def allPassed (rs : List Result) : Bool := rs.all (·.passed)

/-! ### Trials -/

abbrev Trial (ε α : Type) := StateM (Machine ε) α

variable {ε : Type} [Host ε]

def blank : Machine ε := Machine.fresh (.zeros Memory.defaultSize) (Console.ofText "")

/-- Evaluate a text, with its own output, and input if there is some. -/
def feedWith (input : Option String) (line : String) : Trial ε (Except Abort String) := fun m =>
  match interpretLine line input (m, "") with
  | .ok out (m, _) => (.ok out, m)
  | .error a (m, _) => (.error a, m)

def feed (line : String) : Trial ε (Except Abort String) := feedWith none line

/-- Evaluate tokens under a loop index and with variables; the variables at the end are the result. -/
def evalWith (loop : Option Int) (vars : Variables) (tokens : List String) :
    Trial ε (Except Abort Variables) := fun m =>
  match interpret loop tokens ⟨m, vars⟩ with
  | .ok () s => (.ok s.vars, s.toMachine)
  | .error a s => (.error a, s.toMachine)

def eval (line : String) : Trial ε (Except Abort Variables) := evalWith none [] (tokenize line)

def runText (line : String) : Trial ε (Option Bool) := fun m =>
  match run line ⟨m, []⟩ with
  | .ok b s => (some b, s.toMachine)
  | .error _ s => (none, s.toMachine)

def succeeds {α : Type} : Except Abort α → Bool
  | .ok _ => true
  | .error _ => false

def gives (expected : String) : Except Abort String → Bool
  | .ok out => out == expected
  | .error _ => false

/-- Whether a result is a failure of a class or a narrower one. -/
def raises {α : Type} (k : Kind) : Except Abort α → Bool
  | .error (.failed f) => f.cause.kind.lineage.contains k
  | _ => false

def hasContexts {α : Type} (contexts : List String) : Except Abort α → Bool
  | .error (.failed f) => f.contexts == contexts
  | _ => false

def reportsAs {α : Type} (report : String) : Except Abort α → Bool
  | .error (.failed f) => f.report == report
  | _ => false

def mentions (text part : String) : Bool := (text.splitOn part).length > 1

def stackIs (cells : List Int) : Trial ε Bool := do
  return (← get).stack.bottomUp == cells

def outputIs (text : String) : Trial ε Bool := do
  return (← get).console.sink.output == text

def knows (name : String) : Trial ε Bool := do
  return (← get).words.contains name

def onMachine (m : Machine ε) (t : Trial ε Bool) : Bool := (t.run m).1

def onBlank (t : Trial Empty Bool) : Bool := onMachine blank t

def outputOf (line : String) : Except Abort String := ((feed line : Trial Empty _).run blank).1

end Forth.SelfTest
