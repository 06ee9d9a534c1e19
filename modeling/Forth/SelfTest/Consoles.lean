import Forth.SelfTest.Basic
import Forth.Workspace

/-!
Tests of machines on consoles.
-/
namespace Forth.SelfTest.Consoles

def hosted (lines : List String) : Machine Empty :=
  Machine.fresh (.zeros Memory.defaultSize) (Console.ofLines lines)

def writesAre (writes : List String) : Trial Empty Bool := do
  return (← get).console.sink.writes == writes

def printsOver (lines : List String) (line output : String) : Bool := onMachine (hosted lines) do
  let r ← eval line
  return succeeds r && (← outputIs output)

def io : Suite := ⟨"TestConsoleInterpreter_IO",
  [⟨"test_dot_and_cr_are_console_events", fun _ => onMachine (hosted []) do
      let _ ← eval "42 . cr"
      writesAre ["42", "\n"]⟩,
   ⟨"test_string_literal_goes_through_console", fun _ => printsOver [] ".\" hi there \"" "hi there\n"⟩,
   ⟨"test_loop_output_has_no_separator", fun _ => printsOver [] "3 do index . loop" "012"⟩]⟩

def input : Suite := ⟨"TestConsoleInterpreter_Input",
  [⟨"test_inputn_reads_from_console", fun _ =>
      printsOver ["", "x", "17"] "inputn 1 + ." "INPUT EMPTY\nNOT A NUMBER\n18"⟩,
   ⟨"test_input_char_code", fun _ => onMachine (hosted ["A"]) do
      let _ ← eval "input"
      stackIs [65]⟩]⟩

def runs : Suite := ⟨"TestConsoleInterpreter_Run",
  [⟨"test_run_success", fun _ => onMachine (hosted []) do
      let ok ← runText ": double dup + ; 5 double ."
      return ok == some true && (← outputIs "10")⟩,
   ⟨"test_run_reports_error_with_context", fun _ => onMachine (hosted []) do
      let ok ← runText "1 . 2 frob 3"
      return ok == some false && (← outputIs "1UNKNOWN WORD 'frob' at: 2 >>frob<< 3\n")⟩,
   ⟨"test_run_reports_duplicate", fun _ => onMachine (hosted []) do
      let ok ← runText ": x 1 ; : x 2 ;"
      return ok == some false &&
        mentions (← get).console.sink.output "WORD 'x' ALREADY EXISTS"⟩,
   ⟨"test_stack_survives_failed_run", fun _ => onMachine (hosted []) do
      let _ ← runText "1 2 nope"
      stackIs [1, 2]⟩,
   ⟨"test_errors_still_raise_from_interpret", fun _ => onMachine (hosted []) do
      return raises .unknownWord (← eval "nope")⟩]⟩

def evalAt (w : Workspace Empty) (i : Nat) (line : String) :
    Option (Except Abort Variables × Workspace Empty) := do
  let m ← w.machine? i
  let (r, m) := (eval line).run m
  return (r, w.put i m)

def clones : Suite := ⟨"TestConsoleInterpreter_Clone",
  [⟨"test_clone_keeps_console", fun _ =>
      let first : Machine Empty := Machine.fresh (.zeros 8) (Console.ofLines [])
      (do
        let (_, w) ← evalAt (Workspace.single first true) 0 ": seven 7 ;"
        let w ← w.clone 0 false
        let (_, w) ← evalAt w 1 "seven ."
        let twin ← w.machine? 1
        let shown := (← w.machine? 0).console.sink.output
        let (_, w) ← evalAt w 1 ": eight 8 ;"
        let vm ← w.machine? 0
        return (w.seats[1]?.map Seat.hosted) == some true && twin.memory.size == 8 && shown == "7" &&
          !vm.words.contains "eight").getD false⟩,
   ⟨"test_shared_words", fun _ =>
      (do
        let w ← (Workspace.single (hosted []) true).clone 0 true
        let (_, w) ← evalAt w 1 ": nine 9 ;"
        let (r, _) ← evalAt w 0 ": nine 9 ;"
        return raises .duplicateDefinition r).getD false⟩]⟩

def stdio : Suite := ⟨"TestStdioConsole",
  [⟨"test_explicit_streams", fun _ =>
      let c := Console.ofText "one\r\ntwo\n"
      let line (r : Except Fault (Option String) × Source) : Option String :=
        match r.1 with
        | .ok line => line
        | .error _ => none
      let a := c.source.readLine
      let b := a.2.readLine
      let d := b.2.readLine
      (match c.sink.write "x" with
        | .ok s => s.output == "x"
        | .error _ => false) &&
        [line a, line b, line d] == [some "one", some "two", none]⟩,
   ⟨"test_interpreter_over_stdio", fun _ =>
      onMachine (Machine.fresh (.zeros Memory.defaultSize) (Console.ofText "5\n") : Machine Empty) (do
        let _ ← eval "inputn 2 * ."
        outputIs "10")⟩]⟩

def collection : Collection := ⟨"csforth_runtime", [io, input, runs, clones, stdio]⟩

end Forth.SelfTest.Consoles
