import Forth.Machine

/-!
The journal as records of a log, as they are shown when debugging is asked for. A record says which part of the
program it comes from.
-/
namespace Forth.Event

def origin : Event → String
  | .defined .. | .evaluationFailed _ => "core"
  | .declared .. => "stdlib"
  | .runFailed => "runtime"
  | .running .. | .finalStack _ => "repl"

/-- What an event says; nothing if a number in it has too many digits. -/
def text? : Event → Option String
  | .defined name tokens => some ("defined " ++ name ++ " (" ++ tokens.repr ++ " tokens)")
  | .declared name n => (Numeral.text? n).map fun value => "variable " ++ name ++ " = " ++ value
  | .evaluationFailed report => some ("evaluation failed: " ++ report)
  | .runFailed => some "run failed"
  | .running path size => some ("running " ++ path ++ " (" ++ size.repr ++ " chars)")
  | .finalStack summary => some ("final stack " ++ summary)

/-- The record that an event makes in the log. A name in it may hold line feeds. -/
def record? (e : Event) : Option String :=
  e.text?.map fun text => "DEBUG csforth." ++ e.origin ++ ": " ++ text

end Forth.Event
