import Forth.SelfTest.Basic
import Forth.DotCommand
import Forth.Workspace

/-!
Tests of tokens, stack, memory, dictionary, evaluation and dot-commands.
-/
namespace Forth.SelfTest.Kernel

/-! ### Host words for the tests of evaluation -/

inductive Gauge where
  | place | skip | stop | failAhead | bindings
  deriving DecidableEq, Repr

def Gauge.act (site : Site) : Gauge → Step Gauge (Option Int)
  | .place => do
    let loop := match site.loop with
      | none => "-"
      | some k => Numeral.text k
    Step.act 0 (Machine.emit ("(" ++ Numeral.text site.pos ++ " " ++ loop ++ ")"))
    pure none
  | .skip => pure (some (site.pos + 1))
  | .stop => pure (some (-1))
  | .failAhead => Step.fail 1 (.raised .forth (some "BOOM"))
  | .bindings => do
    let shown := (← get).vars.map fun (name, n) => name ++ "=" ++ Numeral.text n
    Step.act 0 (Machine.emit ("[" ++ Text.spaced shown ++ "]"))
    pure none

instance : Host Gauge := ⟨fun w site => w.act site⟩

def gaugeWords : Dictionary Gauge :=
  ⟨[⟨"+", "n n -- n", .primitive (.simple .add)⟩,
    ⟨"probe", Effect.none, .primitive (.host .place)⟩,
    ⟨"skip", Effect.none, .primitive (.host .skip)⟩,
    ⟨"stop", Effect.none, .primitive (.host .stop)⟩,
    ⟨"boom", Effect.none, .primitive (.host .failAhead)⟩,
    ⟨"vars", Effect.none, .primitive (.host .bindings)⟩]⟩

def gaugeMachine : Machine Gauge :=
  ⟨[], .zeros Memory.defaultSize, gaugeWords, Console.ofText "", #[]⟩

def withDefinitions (definitions : List (String × List String)) : Machine Gauge :=
  { gaugeMachine with
    words := ⟨gaugeWords.words ++ definitions.map fun (name, body) => ⟨name, "", .definition body⟩⟩ }

def onGauge (t : Trial Gauge Bool) : Bool := onMachine gaugeMachine t

/-! ### Suites -/

def tokenizer : Suite := ⟨"TestTokenizer",
  [⟨"test_mixed_whitespace_matches_single_spaces", fun _ =>
      tokenize "1  2\t\t+\n\n .  " == tokenize "1 2 + ." &&
        tokenize "1 2 + ." == ["1", "2", "+", "."]⟩,
   ⟨"test_empty_input", fun _ => tokenize "" == [] && tokenize " \n\t " == []⟩,
   ⟨"test_no_quoting_awareness", fun _ =>
      tokenize ".\" hello  world \"" == [".\"", "hello", "world", "\""]⟩,
   ⟨"test_parse_int", fun _ =>
      Numeral.read "42" == .value 42 && Numeral.read "-7" == .value (-7) &&
        Numeral.read "+3" == .value 3 &&
        ["1_000", "0x10", "-", "dup"].all fun t => Numeral.read t == .other⟩]⟩

def isUnderflow {α : Type} : Except Trouble α → Bool
  | .error (.cause .stackUnderflow) => true
  | _ => false

def isStack (expected : Stack) : Except Trouble Stack → Bool
  | .ok s => s == expected
  | .error _ => false

def forthStack : Suite := ⟨"TestForthStack",
  [⟨"test_pop_empty_underflows", fun _ =>
      isUnderflow (Stack.pop []) && isUnderflow (Stack.dup [])⟩,
   ⟨"test_lifo", fun _ =>
      isStack (Stack.ofBottomUp [1, 2, 2]) (Stack.dup (Stack.ofBottomUp [1, 2])) &&
        (match Stack.pop (Stack.ofBottomUp [1, 2, 2]) with
         | .ok (n, s) => n == 2 && isStack [1] (Stack.drop s) && Stack.bottomUp s == [1, 2]
         | .error _ => false) &&
        (match Stack.peek [1] with
         | .ok n => n == 1
         | .error _ => false)⟩,
   ⟨"test_underflow_is_forth_error", fun _ =>
      Kind.stackUnderflow.lineage.contains .forth &&
        Failure.report ⟨.stackUnderflow, []⟩ == "STACK UNDERFLOW"⟩]⟩

def isOutOfRange {α : Type} : Except Trouble α → Bool
  | .error (.cause (.addressOutOfRange ..)) => true
  | _ => false

def isCell (n : Int) : Except Trouble Int → Bool
  | .ok k => k == n
  | .error _ => false

def memoryRegion : Suite := ⟨"TestMemoryRegion",
  [⟨"test_zero_initialized", fun _ =>
      (Memory.zeros 4).cells.toList == [0, 0, 0, 0] &&
        (Memory.zeros Memory.defaultSize).size == Memory.defaultSize⟩,
   ⟨"test_store_fetch_and_bounds", fun _ =>
      match (Memory.zeros 2).store 1 9 with
      | .ok m => isCell 9 (m.fetch 1) && isOutOfRange (m.fetch 2) && isOutOfRange (m.store (-1) 0)
      | .error _ => false⟩,
   ⟨"test_zero_sized_region_rejects_everything", fun _ => isOutOfRange ((Memory.zeros 0).fetch 0)⟩,
   ⟨"test_negative_size", fun _ =>
      match Memory.ofSize Memory.defaultSize (-1) with
      | .error .negativeSize => true
      | _ => false⟩]⟩

def isDuplicate : Except Cause (Dictionary Empty) → Bool
  | .error (.duplicateDefinition _) => true
  | _ => false

def definition (name : String) (body : List String) (effect : String) : Word Empty :=
  ⟨name, effect, .definition body⟩

def wordsDictionary : Suite := ⟨"TestWordsDictionary",
  [⟨"test_define_and_lookup", fun _ =>
      let w := definition "double" ["dup", "+"] "n -- 2n"
      match Dictionary.empty.add w with
      | .ok d =>
        d.find? "double" == some w && w.body == ["dup", "+"] && !w.isPrimitive &&
          d.find? "DOUBLE" == none
      | .error _ => false⟩,
   ⟨"test_duplicate_definition", fun _ =>
      match Dictionary.empty.add (definition "x" ["1"] "") with
      | .ok d =>
        isDuplicate (d.add (definition "x" ["2"] "")) &&
          isDuplicate (d.add ⟨"x", Effect.none, .primitive .bye⟩) &&
          (d.find? "x").map Word.body == some ["1"]
      | .error _ => false⟩,
   ⟨"test_copy_is_independent", fun _ =>
      match Dictionary.empty.add (definition "a" [] "") with
      | .ok d =>
        match d.add (definition "b" [] "") with
        | .ok copy => copy.contains "b" && !d.contains "b"
        | .error _ => false
      | .error _ => false⟩,
   ⟨"test_disasm", fun _ =>
      (definition "sq" ["dup", "*"] "n -- n").source == ": sq ( n -- n ) dup * ;" &&
        (definition "nop" [] "").source == ": nop ;" &&
        (⟨"+", "n n -- n", .primitive (.simple .add)⟩ : Word Empty).source ==
          "primitive + ( n n -- n )"⟩]⟩

def context : Suite := ⟨"TestFormatContext",
  [⟨"test_neighbors", fun _ =>
      formatContext ["1", "foo", "2"] 1 == "1 >>foo<< 2" &&
        formatContext ["foo", "2"] 0 == ">>foo<< 2" &&
        formatContext ["1", "foo"] 1 == "1 >>foo<<"⟩,
   ⟨"test_past_end_clamps_to_last_token", fun _ =>
      formatContext ["1", "if", "2"] 3 == "if >>2<<"⟩,
   ⟨"test_empty", fun _ => formatContext [] 0 == ">><<"⟩]⟩

def engine : Suite := ⟨"TestInterpreterEngine",
  [⟨"test_literals", fun _ =>
      [0, 5, -5, 1099511627776, -1180591620717411303424].all fun (n : Int) => onGauge do
        let r ← evalWith none [] [Numeral.text n]
        return succeeds r && (← stackIs [n])⟩,
   ⟨"test_text_overload", fun _ => onGauge do
      let _ ← eval "1\t2\n +"
      stackIs [3]⟩,
   ⟨"test_stack_persists_across_calls", fun _ => onGauge do
      let _ ← eval "1"
      let _ ← eval "2 +"
      stackIs [3]⟩,
   ⟨"test_unknown_word_has_context", fun _ => onGauge do
      return reportsAs "UNKNOWN WORD 'foo' at: 1 >>foo<< 2" (← eval "1 foo 2")⟩,
   ⟨"test_cursor_advance_skips_tokens", fun _ => onGauge do
      let _ ← eval "skip 1 2"
      stackIs [2]⟩,
   ⟨"test_end_sentinel_stops_sequence", fun _ => onGauge do
      let r ← eval "1 stop 2 nosuchword"
      return succeeds r && (← stackIs [1])⟩,
   ⟨"test_primitive_error_context_uses_cursor", fun _ => onGauge do
      return hasContexts ["boom >>x<< y"] (← eval "1 boom x y")⟩,
   ⟨"test_definition_recursion_and_outer_context", fun _ =>
      onMachine (withDefinitions [("inner", ["1", "nope"]), ("outer", ["inner"])]) do
        let r ← eval "0 outer 9"
        return raises .unknownWord r &&
          hasContexts ["1 >>nope<<", ">>inner<<", "0 >>outer<< 9"] r⟩,
   ⟨"test_loop_index_propagates_into_definitions", fun _ =>
      onMachine (withDefinitions [("p", ["probe"])]) do
        let _ ← evalWith (some 3) [] ["p"]
        outputIs "(0 3)"⟩,
   ⟨"test_variables_injected_and_fresh", fun _ =>
      onMachine (withDefinitions [("dvars", ["vars"])]) do
        let _ ← evalWith none [("a", 1)] ["vars", "dvars"]
        outputIs "[a=1][]"⟩,
   ⟨"test_runaway_recursion", fun _ =>
      onMachine (withDefinitions [("forever", ["forever"])]) do
        let r ← eval "forever"
        let again ← eval "1 1 +"
        return raises .returnStackOverflow r && hasContexts [] r && succeeds again⟩,
   ⟨"test_clone", fun _ =>
      let w := Workspace.single gaugeMachine false
      match (w.clone 0 false).bind fun w => w.clone 0 true with
      | none => false
      | some w =>
        match w.machine? 1, w.machine? 2 with
        | some twin, some shared =>
          let define (m : Machine Gauge) (name : String) :=
            { m with words := ⟨m.words.words ++ [⟨name, "", .definition []⟩]⟩ }
          let w := (w.put 1 (define twin "only-in-twin")).put 2
            { define shared "in-both" with stack := [1] }
          match w.machine? 0 with
          | some m => !m.words.contains "only-in-twin" && m.words.contains "in-both" && m.stack == []
          | none => false
        | _, _ => false⟩,
   ⟨"test_shared_stack", fun _ =>
      let w := Workspace.single { gaugeMachine with stack := [7] } false
      match w.spawn 0 (.zeros Memory.defaultSize) with
      | none => false
      | some w =>
        match w.machine? 1 with
        | none => false
        | some m =>
          let (_, m) := (eval "1 +").run m
          ((w.put 1 m).machine? 0).map (·.stack) == some [8]⟩]⟩

def console : Suite := ⟨"TestInterpreterIO",
  [⟨"test_default_dictionary_is_not_shared", fun _ => onBlank do
      let _ ← eval ": mine 1 ;"
      return (← knows "mine") && !(blank : Machine Empty).words.contains "mine"⟩,
   ⟨"test_interpret_line_returns_output", fun _ => gives "A42" (outputOf "65 emit 42 .")⟩,
   ⟨"test_read_line", fun _ =>
      let read (s : Source) : Option String × Source :=
        match s.readLine with
        | (.ok line, s) => (line, s)
        | (.error _, s) => (none, s)
      let (a, s) := read (.text "abc\n\nlast".toList)
      let (b, s) := read s
      let (c, s) := read s
      let (d, _) := read s
      [a, b, c, d] == [some "abc", some "", some "last", none]⟩,
   ⟨"test_memory_size_config", fun _ =>
      (Machine.fresh (.zeros 4) (Console.ofText "") : Machine Empty).memory.size == 4⟩]⟩

def dotAfter (line command : String) : String :=
  let (_, m) := (eval line).run (blank : Machine Empty)
  match DotCommand.answer m command with
  | .ok text => text
  | .error _ => ""

def dotCommands : Suite := ⟨"TestDotCommands",
  [⟨"test_stack", fun _ => dotAfter "1 2 3" ".stack" == "<3> 1 2 3 \n"⟩,
   ⟨"test_see_and_word", fun _ =>
      let source := ": sq ( n -- n*n ) dup * ;"
      dotAfter source ".see sq" == source ++ "\n" &&
        mentions (dotAfter source ".word sq") "class=DEFINITION" &&
        mentions (dotAfter source ".see nope") "unknown: nope"⟩,
   ⟨"test_dict_filter", fun _ =>
      let names := Text.words (dotAfter "" ".dict mem")
      names.contains "mem@" && !names.contains "dup"⟩,
   ⟨"test_unknown", fun _ => mentions (dotAfter "" ".zzz") "unknown dot-cmd: .zzz"⟩,
   ⟨"test_dispatch_covers_dot_cmds", fun _ =>
      DotCommand.names.all (fun name => (DotCommand.ofName? name).isSome) &&
        DotCommand.names == [".bye", ".dict", ".help", ".mem", ".see", ".stack", ".word"]⟩]⟩

def collection : Collection := ⟨"csforth_vm_core",
  [tokenizer, forthStack, memoryRegion, wordsDictionary, context, engine, console, dotCommands]⟩

end Forth.SelfTest.Kernel
