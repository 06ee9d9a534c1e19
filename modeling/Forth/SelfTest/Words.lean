import Forth.SelfTest.Basic

/-!
Tests of the standard words.
-/
namespace Forth.SelfTest.Words

def leaves (line : String) (cells : List Int) : Bool := onBlank do
  let r ← eval line
  return succeeds r && (← stackIs cells)

def lastOf (lines : List String) (test : Except Abort String → Bool) : Bool := onBlank do
  let mut result : Except Abort String := .ok ""
  for line in lines do
    result ← feed line
  return test result

def failsLeaving (k : Kind) (line : String) (cells : List Int) : Bool := onBlank do
  let r ← feed line
  return raises k r && (← stackIs cells)

def fails (k : Kind) (line : String) : Bool := raises k (outputOf line)

def prints (line output : String) : Bool := gives output (outputOf line)

def arithmetic : Suite := ⟨"TestArithmetic",
  [⟨"test_basic_ops", fun _ => prints "7 3 + . 7 3 - . 7 3 * . 7 3 / . 7 3 mod ." "1042121"⟩,
   ⟨"test_truncating_division", fun _ =>
      let cases : List (Int × Int × Int × Int) :=
        [(7, 2, 3, 1), (-7, 2, -3, -1), (7, -2, -3, 1), (-7, -2, 3, -1)]
      cases.all fun (a, b, q, r) =>
        let operands := Numeral.text a ++ " " ++ Numeral.text b
        leaves (operands ++ " / " ++ operands ++ " mod") [q, r]⟩,
   ⟨"test_division_by_zero", fun _ =>
      fails .divisionByZero "5 0 /" && fails .divisionByZero "5 0 mod"⟩,
   ⟨"test_underflow_for_every_popping_primitive", fun _ =>
      ["+", "-", "*", "/", "mod", "=", ">", "<", "and", "or", "drop", "dup", "swap", "over", "rot",
       "emit", ".", "if 1 else 2 then", "mem@", "mem!"].all (fails .stackUnderflow)⟩,
   ⟨"test_underflow_through_definitions_and_loops", fun _ =>
      ["do 1 loop", "variable v", "invert"].all (fails .stackUnderflow)⟩]⟩

def logic : Suite := ⟨"TestLogicAndComparison",
  [⟨"test_comparisons", fun _ =>
      leaves "1 2 < 2 1 < 2 2 = 3 2 > 1 2 !=  2 2 >= 1 2 <= 3 2 <=" [-1, 0, -1, -1, -1, -1, -1, 0]⟩,
   ⟨"test_and_or_use_nonzero_rule", fun _ =>
      leaves "5 7 and 5 0 and 0 3 or 0 0 or" [-1, 0, -1, 0]⟩,
   ⟨"test_invert_and_zero_equal", fun _ => leaves "0 invert 9 invert 0 0= 4 0=" [-1, 0, -1, 0]⟩]⟩

def stackWords : Suite := ⟨"TestStackWords",
  [⟨"test_shuffles", fun _ => leaves "1 2 swap 3 over 4 5 6 rot" [2, 1, 3, 1, 5, 6, 4]⟩,
   ⟨"test_depth_empty", fun _ => leaves "empty? empty 1 2 depth" [-1, 0, 1, 2, 4]⟩,
   ⟨"test_dot_s_and_dump", fun _ => onBlank do
      let r ← feed "1 2 dump"
      return gives "<2> 1 2 \n" r && (← stackIs [1, 2])⟩,
   ⟨"test_negate_abs", fun _ => leaves "5 negate -3 abs 4 abs" [-5, 3, 4]⟩]⟩

def output : Suite := ⟨"TestOutput",
  [⟨"test_emit_clamps_to_byte", fun _ =>
      prints "72 emit 105 emit 300 emit -5 emit" "Hi\u00ff\x00"⟩,
   ⟨"test_cr_bl_nop", fun _ => prints "1 . bl 2 . cr nop" "1 2\n"⟩,
   ⟨"test_string_literal", fun _ =>
      prints ".\" hello   world \" 1 ." "hello world\n1" && prints ".\" \"" "\n"⟩,
   ⟨"test_unterminated_string", fun _ => fails .unterminatedString ".\" oops"⟩]⟩

def readsTo (input line output : String) (cells : List Int) : Bool := onBlank do
  let r ← feedWith (some input) line
  return gives output r && (← stackIs cells)

def input : Suite := ⟨"TestInput",
  [⟨"test_input_takes_first_char_code", fun _ => readsTo "abc\n" "input" "" [97]⟩,
   ⟨"test_inputn_retries_with_diagnostics", fun _ =>
      readsTo "\nxyz\n42\n" "inputn ." "INPUT EMPTY\nNOT A NUMBER\n42" []⟩,
   ⟨"test_input_retries_on_empty", fun _ => readsTo "\nZ\n" "input" "INPUT EMPTY\n" [90]⟩,
   ⟨"test_inputn_uses_literal_grammar", fun _ =>
      readsTo "1_000\n 42\n+7\n" "inputn ." "NOT A NUMBER\nNOT A NUMBER\n7" []⟩,
   ⟨"test_input_exhausted", fun _ => onBlank do
      return raises .inputExhausted (← feedWith (some "nope\n") "inputn")⟩]⟩

def comment : Suite := ⟨"TestComment",
  [⟨"test_comment_skipped", fun _ => leaves "1 ( 2 3 bogus ) 4" [1, 4]⟩,
   ⟨"test_unterminated_comment", fun _ => onBlank do
      match ← eval "1 ( 2 3" with
      | .error (.failed f) =>
        return f.cause.kind == .unterminatedComment && mentions f.report "2 >>3<<" &&
          (← stackIs [1])
      | _ => return false⟩]⟩

def definitions : Suite := ⟨"TestDefinitions",
  [⟨"test_double", fun _ => prints ": double dup + ;  5 double ." "10"⟩,
   ⟨"test_effect_comment_captured", fun _ => onBlank do
      let _ ← feed ": sq ( n -- n*n ) dup * ;"
      let w := (← get).words.find? "sq"
      return w.map (·.effect) == some "n -- n*n" && w.map Word.body == some ["dup", "*"]⟩,
   ⟨"test_duplicate_definition", fun _ => onBlank do
      let _ ← feed ": x 1 ;"
      let r ← feed ": x 2 ;"
      let _ ← eval "x"
      return raises .duplicateDefinition r && (← stackIs [1])⟩,
   ⟨"test_cannot_redefine_builtin", fun _ => fails .duplicateDefinition ": dup 1 ;"⟩,
   ⟨"test_missing_name", fun _ => fails .missingName ": ;"⟩,
   ⟨"test_nested_definition", fun _ => onBlank do
      let r ← feed ": a : b ; ;"
      return raises .nestedDefinition r && !(← knows "a")⟩,
   ⟨"test_unterminated_definition", fun _ => onBlank do
      let before := (← get).words.size
      let r ← feed ": a 1 2"
      return raises .unterminatedDefinition r && (← get).words.size == before⟩,
   ⟨"test_unterminated_effect_comment", fun _ => fails .unterminatedComment ": a ( n -- 1 ;"⟩,
   ⟨"test_definition_calls_definition", fun _ =>
      prints ": sq dup * ; : quad sq sq ; 3 quad ." "81"⟩,
   ⟨"test_body_runs_in_fresh_namespace", fun _ =>
      fails .unknownVariable "1 variable v : peek @ v ; peek"⟩,
   ⟨"test_name_collides_with_variable", fun _ =>
      fails .nameCollidesWithVariable "1 variable v : v 2 ;"⟩]⟩

def conditional : Suite := ⟨"TestConditional",
  [⟨"test_branches", fun _ =>
      prints "1 if 111 else 222 then ." "111" && prints "0 if 111 else 222 then ." "222" &&
        prints "-5 if 1 else 2 then ." "1"⟩,
   ⟨"test_nested_if_in_if_branch", fun _ =>
      let source := " if if 1 else 2 then else 3 then ."
      prints ("1 1" ++ source) "1" && prints ("0 1" ++ source) "2" &&
        prints ("1 0" ++ source) "3"⟩,
   ⟨"test_nested_if_in_else_branch", fun _ =>
      let source := " if 1 else if 2 else 3 then then ."
      prints ("1 0" ++ source) "2" && prints ("0 0" ++ source) "3"⟩,
   ⟨"test_if_without_else", fun _ => prints "1 if 7 . then 0 if 8 . then 9 ." "79"⟩,
   ⟨"test_unterminated_if_leaves_stack", fun _ => failsLeaving .unterminatedIf "1 if 111" [1]⟩,
   ⟨"test_unterminated_else", fun _ => failsLeaving .unterminatedElse "1 if 2 else 3" [1]⟩,
   ⟨"test_definition_inside_conditional", fun _ =>
      fails .nestedDefinitionInConditional "1 if : a ; else 2 then" &&
        fails .nestedDefinitionInConditional "1 if 2 else : a ; then"⟩,
   ⟨"test_branch_error_context", fun _ =>
      let r := outputOf "1 if nope else 2 then"
      raises .unknownWord r && hasContexts [">>nope<<", "2 >>then<<"] r⟩]⟩

def loops : Suite := ⟨"TestLoops",
  [⟨"test_index_sequence", fun _ => prints "3 do index . loop" "012"⟩,
   ⟨"test_single_count_two_cell_form", fun _ => onBlank do
      let r ← feed "3 0 do index . loop"
      return gives "" r && (← stackIs [3])⟩,
   ⟨"test_zero_and_negative_counts", fun _ =>
      prints "0 do index . loop -4 do index . loop 5 ." "5"⟩,
   ⟨"test_nested_loops_shadow_index", fun _ =>
      prints "2 do index . 3 do index . loop loop" "00121012"⟩,
   ⟨"test_index_outside_loop", fun _ => fails .indexOutsideLoop "index"⟩,
   ⟨"test_index_visible_in_called_definition", fun _ =>
      prints ": show index . ; 3 do show loop" "012"⟩,
   ⟨"test_unterminated_loop", fun _ => failsLeaving .unterminatedLoop "3 do index ." [3]⟩,
   ⟨"test_definition_inside_loop", fun _ => fails .nestedDefinitionInLoop "3 do : a ; loop"⟩,
   ⟨"test_if_inside_loop", fun _ => prints "4 do index 2 mod 0= if index . then loop" "02"⟩,
   ⟨"test_variable_does_not_survive_iteration", fun _ =>
      fails .nameCollidesWithVariable "2 do index variable i 1 variable i loop" &&
        prints "2 do index variable i @ i . loop" "01"⟩]⟩

def variableWords : Suite := ⟨"TestVariables",
  [⟨"test_declare_write_read", fun _ => prints "7 variable v 5 $ v @ v ." "5"⟩,
   ⟨"test_unknown_variable", fun _ => fails .unknownVariable "@ v" && fails .unknownVariable "1 $ v"⟩,
   ⟨"test_missing_identifier", fun _ =>
      ["1 variable", "@", "1 $"].all (fails .missingIdentifier)⟩,
   ⟨"test_name_collides_with_word", fun _ => fails .nameCollidesWithWord "1 variable dup"⟩,
   ⟨"test_redeclaration", fun _ => fails .nameCollidesWithVariable "1 variable v 2 variable v"⟩,
   ⟨"test_not_a_variable", fun _ => fails .notAVariable "@ dup" && fails .notAVariable "1 $ dup"⟩,
   ⟨"test_namespace_is_per_call", fun _ =>
      lastOf ["1 variable v", "@ v"] (raises .unknownVariable)⟩,
   ⟨"test_injected_namespace_persists", fun _ => onBlank do
      match ← evalWith none [] (tokenize "3 variable v") with
      | .error _ => return false
      | .ok vars =>
        match ← evalWith none vars (tokenize "@ v 1 + $ v") with
        | .error _ => return false
        | .ok vars => return vars == [("v", 4)]⟩]⟩

def memoryWords : Suite := ⟨"TestMemoryWords",
  [⟨"test_store_fetch", fun _ => prints "42 3 mem! 3 mem@ . 0 mem@ . memsize ." "420128"⟩,
   ⟨"test_out_of_range", fun _ =>
      fails .memoryAccess "128 mem@" &&
        onMachine (Machine.fresh (.zeros 0) (Console.ofText "") : Machine Empty) (do
          return raises .memoryAccess (← eval "0 mem@"))⟩]⟩

def bye : Suite := ⟨"TestBye",
  [⟨"test_bye_stops_program", fun _ => prints "1 . bye 2 . nosuchword" "1"⟩,
   ⟨"test_bye_only_ends_enclosing_sequence", fun _ =>
      prints "1 if 1 . bye 2 . else 3 . then 4 ." "14"⟩]⟩

def standard : Suite := ⟨"TestStandardWords",
  [⟨"test_fresh_dictionary_each_call", fun _ => onBlank do
      let _ ← feed ": mine ;"
      return (← get).words != standardWords⟩,
   ⟨"test_composites_are_definitions", fun _ =>
      let d : Dictionary Empty := standardWords
      ["invert", "!=", ">=", "<=", "cr", "nop", "0=", "empty?", "dump"].all (fun name =>
          (d.find? name).any fun w => !w.isPrimitive) &&
        (d.find? "invert").map Word.body == some ["0", "=", "if", "-1", "else", "0", "then"] &&
        (d.find? "nop").map Word.body == some []⟩]⟩

def collection : Collection := ⟨"csforth_stdlib",
  [arithmetic, logic, stackWords, output, input, comment, definitions, conditional, loops, variableWords,
   memoryWords, bye, standard]⟩

end Forth.SelfTest.Words
