import Forth.Evaluate

/-!
Evaluating whole programs. `interpret` is the outermost evaluation: here a run that was nested too deep
becomes a failure without contexts, and other failures are noted down. `interpretLine` redirects output
and input for one text; `run` reports failures on the console instead of handing them on.
-/
namespace Forth

variable {ε : Type} [Host ε]

def nestingLimit : Nat := 400

/-- An outermost evaluation, nested at most `limit` deep. -/
def interpretWithin (limit : Nat) (loop : Option Int) (tokens : List String) :
    EStateM Abort (Scope ε) Unit := fun s =>
  match evaluate limit loop tokens s with
  | .ok () s => .ok () s
  | .error .bye s => .ok () s
  | .error .overflow s => .error (.failed ⟨.returnStackOverflow, []⟩) s
  | .error (.failed f) s =>
    .error (.failed f) { s with toMachine := s.toMachine.note (.evaluationFailed f.report) }
  | .error (.fault f) s => .error (.fault f) s

def interpret (loop : Option Int) (tokens : List String) : EStateM Abort (Scope ε) Unit :=
  interpretWithin nestingLimit loop tokens

/-- The console for one text: output goes on from `target`, and input is replaced if there is some. -/
def Console.redirect (c : Console) (target : String) (input : Option String) : Console where
  sink := .text target
  source :=
    match input with
    | some text => .text text.toList
    | none => c.source

/-- The console after one text: output goes where it went before, and so does input if it was
replaced. -/
def Console.restore (c after : Console) (input : Option String) : Console where
  sink := c.sink
  source := if input.isSome then c.source else after.source

/-- Evaluate a text with its output appended to a target, and with input of its own if there is some.
The result is the output; the target holds it also if the evaluation goes wrong. -/
def interpretLine (line : String) (input : Option String) :
    EStateM Abort (Machine ε × String) String := fun (m, target) =>
  let inner := { m with console := m.console.redirect target input }
  let back (s : Scope ε) : Machine ε × String :=
    ({ s.toMachine with console := m.console.restore s.console input }, s.console.sink.output)
  match interpret none (tokenize line) ⟨inner, []⟩ with
  | .ok () s => .ok (String.ofList (s.console.sink.output.toList.drop target.length)) (back s)
  | .error a s => .error a (back s)

/-- Evaluate a text and say whether it succeeded; a failure is reported on the console. -/
def run (text : String) : EStateM Fault (Scope ε) Bool := fun s =>
  match interpret none (tokenize text) s with
  | .ok () s => .ok true s
  | .error (.fault f) s => .error f s
  | .error (.failed f) s =>
    let s := { s with toMachine := s.toMachine.note .runFailed }
    match s.console.sink.write (f.report ++ "\n") with
    | .ok sink => .ok false { s with console := { s.console with sink } }
    | .error fault => .error fault s

end Forth
