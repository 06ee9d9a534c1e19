import Forth.SelfTest.Kernel
import Forth.SelfTest.Consoles
import Forth.Program

/-!
Tests of the prompt, of completion and of the command line.
-/
namespace Forth.SelfTest.Prompts

def atPrompt (line : String) : Trial Empty (Option Bool × String) := fun m =>
  let before := m.console.sink.output.length
  let written (m : Machine Empty) : String :=
    String.ofList (m.console.sink.output.toList.drop before)
  match handleLine line m with
  | .ok more m => ((some more, written m), m)
  | .error _ m => ((none, written m), m)

/-- Deal with lines that do not end the session; the result is what the last one wrote. -/
def writesAtPrompt (lines : List String) : Trial Empty String := do
  let mut text := ""
  for line in lines do
    let (more, out) ← atPrompt line
    text := if more == some true then out else "ended"
  return text

def onPrompt (t : Trial Empty Bool) : Bool := onMachine (Consoles.hosted []) t

def handling : Suite := ⟨"TestREPL_HandleLine",
  [⟨"test_ok_suffix", fun _ => onPrompt do
      return (← writesAtPrompt ["1 2 + ."]) == "3 ok\n" && (← writesAtPrompt [""]) == ""⟩,
   ⟨"test_stack_and_words_persist_between_lines", fun _ => onPrompt do
      return (← writesAtPrompt [": double dup + ;", "21", "double ."]) == "42 ok\n"⟩,
   ⟨"test_variables_do_not_persist", fun _ => onPrompt do
      let out ← writesAtPrompt ["1 variable v", "@ v"]
      return mentions out "UNKNOWN VARIABLE 'v'" && !mentions out " ok"⟩,
   ⟨"test_error_then_session_continues", fun _ => onPrompt do
      let out ← writesAtPrompt ["nope"]
      return out == "UNKNOWN WORD 'nope' at: >>nope<<\n" && (← writesAtPrompt ["7 ."]) == "7 ok\n"⟩,
   ⟨"test_dot_commands", fun _ => onPrompt do
      let stack ← writesAtPrompt ["1 2", ".stack"]
      let source := ": sq ( n -- n*n ) dup * ;"
      return stack == "<2> 1 2 \n" && (← writesAtPrompt [source, ".see sq"]) == source ++ "\n"⟩,
   ⟨"test_forth_words_starting_with_dot_are_not_dot_commands", fun _ => onPrompt do
      return (← writesAtPrompt ["5 . .\" hi \""]) == "5hi\n ok\n" &&
        (← writesAtPrompt ["1 .s"]) == "<1> 1  ok\n"⟩,
   ⟨"test_bye_ends_session", fun _ => onPrompt do
      return (← atPrompt ".bye").1 == some false⟩,
   ⟨"test_input_uses_console", fun _ => onMachine (Consoles.hosted ["7"]) do
      return (← writesAtPrompt ["inputn ."]) == "7 ok\n"⟩]⟩

def completing (lines : List String) (text : String) : List String :=
  let (_, m) := (writesAtPrompt lines).run (Consoles.hosted [])
  (completions m.words text).1

def completer : Suite := ⟨"TestREPL_Completer",
  [⟨"test_words", fun _ => completing [] "1 inp" == ["input", "inputn"]⟩,
   ⟨"test_dot_commands_only_at_line_start", fun _ =>
      (completing [] ".st").contains ".stack" && !(completing [] "1 .st").contains ".stack" &&
        (completing [] "1 .s").contains ".s"⟩,
   ⟨"test_sees_new_definitions", fun _ =>
      completing [": squared dup * ;"] "squ" == ["squared"]⟩,
   ⟨"test_case_sensitive", fun _ => completing [] "DU" == []⟩,
   ⟨"test_nothing_before_cursor", fun _ => completing [] "1 " == []⟩]⟩

def runProgram (source : String) (args : List String) : Program.Report :=
  Program.perform
    { file? := fun path => if path == "prog.fs" then some source.toUTF8 else none
      input := ""
      answers := []
      testsPass := fun _ => false
      room := Memory.defaultSize }
    (Command.ofArgs args)

def returns (code : Nat) (output : String) (r : Program.Report) : Bool :=
  r.ending == .code code && r.output == output

def commandLine : Suite := ⟨"TestCLI",
  [⟨"test_version", fun _ => returns 0 "CSForth Interpreter version 1.0.0\n" (runProgram "" ["-v"])⟩,
   ⟨"test_run_file", fun _ => returns 0 "49" (runProgram ": sq dup * ;\n7 sq .\n" ["prog.fs"])⟩,
   ⟨"test_run_file_error", fun _ =>
      returns 1 "1UNKNOWN WORD 'frob' at: 2 >>frob<<\n" (runProgram "1 .\n2 frob\n" ["prog.fs"])⟩,
   ⟨"test_missing_file", fun _ =>
      returns 1 "path nope.fs cannot be found\n" (runProgram "" ["nope.fs"])⟩,
   ⟨"test_memory_flag", fun _ => returns 0 "16" (runProgram "memsize ." ["-m", "16", "prog.fs"])⟩,
   ⟨"test_run_all_tests_entry_point", fun _ =>
      allPassed (runNamed [Kernel.collection] "csforth_vm_core.TestTokenizer")⟩,
   ⟨"test_negative_memory_rejected", fun _ =>
      match (runProgram "" ["-m", "-1", "x.fs"]).ending with
      | .exited 2 complaint => mentions complaint "memory size must be >= 0"
      | _ => false⟩]⟩

def collection : Collection := ⟨"csforth_repl", [handling, completer, commandLine]⟩

end Forth.SelfTest.Prompts
