import Forth.DotCommand

/-!
The prompt. A line is a dot-command or a program; programs share stack, memory and dictionary, and each
has variables of its own. The interactive loop asks for lines until it is told to stop.
-/
namespace Forth

variable {ε : Type} [Host ε]

/-- Write a text that is not empty, whatever the console. -/
def Machine.write (t : String) : EStateM Fault (Machine ε) Unit := fun m =>
  match m.console.sink.write t with
  | .ok sink => .ok () { m with console := { m.console with sink } }
  | .error f => .error f m

def runLine (line : String) : EStateM Fault (Machine ε) Bool := fun m =>
  match run line ⟨m, []⟩ with
  | .ok b s => .ok b s.toMachine
  | .error f s => .error f s.toMachine

/-- Deal with one line; `false` asks to end the session. -/
def handleLine (line : String) : EStateM Fault (Machine ε) Bool := do
  let line := Text.strip line
  match Text.words line with
  | [] => pure true
  | name :: _ =>
    match DotCommand.ofName? name with
    | some .bye => pure false
    | some _ =>
      match DotCommand.answer (← get) line with
      | .error f => throw f
      | .ok text => do
        Machine.write text
        pure true
    | none => do
      if ← runLine line then Machine.write " ok\n"
      pure true

namespace Prompt

def version : String := "CSForth Interpreter version 1.0.0\n"
def greeting : String := version ++ "Type .help for REPL commands, .bye to quit.\n"
def farewell : String := "bye.\n"
def interruptNotice : String := "KeyboardInterrupt (Ctrl-C). Use .bye to exit.\n"

def mainPrompt : String := "csforth> "

/-- Ask the user behind a console; without a user the input has ended. -/
def ask (m : Machine ε) : Answer × Machine ε :=
  match m.console.source with
  | .user u =>
    let (answer, u) := u.ask mainPrompt
    (answer, { m with console := { m.console with source := .user u } })
  | _ => (.endOfInput, m)

/-- Ask for lines and deal with them until the input or the session ends, or the user interrupts a
program. An interrupt at the main prompt is only remarked on. The number bounds the answers. -/
def loop : Nat → EStateM Fault (Machine ε) Unit
  | 0 => pure ()
  | n + 1 => do
    let (answer, m) := ask (← get)
    set m
    match answer with
    | .endOfInput => pure ()
    | .interrupt => do
      Machine.write interruptNotice
      loop n
    | .line line => do
      if ← handleLine line then loop n

def session : EStateM Fault (Machine ε) Unit := do
  Machine.write greeting
  loop ((← get).console.source.remaining + 1)
  Machine.write farewell

end Prompt

/-- The end of a text that holds no white space. -/
def lastWord (text : List Char) : List Char :=
  (text.reverse.takeWhile fun c => !Text.isBlank c).reverse

/-- The names that complete the word before the cursor, and the length of that word. Dot-commands
complete the first word of a line only, and come first. -/
def completions (d : Dictionary ε) (beforeCursor : String) : List String × Nat :=
  let cs := beforeCursor.toList
  let word := lastWord cs
  let start := cs.take (cs.length - word.length)
  if word.isEmpty then ([], 0)
  else
    let commands := if start.all Text.isBlank then DotCommand.names else []
    let names := (commands ++ d.sortedNames).eraseDups
    (names.filter fun name => word.isPrefixOf name.toList, word.length)

end Forth
