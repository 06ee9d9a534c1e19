import Forth.Standard

/-!
Programs from files. A file is UTF-8 text in which a carriage return, alone or before a line feed, ends a
line too.
-/
namespace Forth.SourceFile

def unifyLineEnds : List Char → List Char
  | '\r' :: '\n' :: rest => '\n' :: unifyLineEnds rest
  | '\r' :: rest => '\n' :: unifyLineEnds rest
  | c :: rest => c :: unifyLineEnds rest
  | [] => []

def decode (bytes : ByteArray) : Except Fault String :=
  match String.fromUTF8? bytes with
  | none => .error .invalidUtf8
  | some text => .ok (String.ofList (unifyLineEnds text.toList))

structure Outcome (ε : Type) where
  console : Console
  journal : Array Event
  exit : Except Fault Nat

variable {ε : Type} [Host ε]

/-- Run the text of a file. With `debug` the final stack is noted down. -/
def execute (path text : String) (debug : Bool) (m : Machine ε) : Outcome ε :=
  let m := m.note (.running path text.length)
  match run text ⟨m, []⟩ with
  | .error f s => ⟨s.console, s.journal, .error f⟩
  | .ok ok s =>
    let code := if ok then 0 else 1
    if debug then
      match s.stack.summary? with
      | none => ⟨s.console, s.journal, .error .digitLimit⟩
      | some summary => ⟨s.console, s.journal.push (.finalStack summary), .ok code⟩
    else ⟨s.console, s.journal, .ok code⟩

/-- Run the file at a path; `content` is what it holds, `none` if there is no such file. -/
def runFile (path : String) (content : Option ByteArray) (room : Nat) (memorySize : Int) (debug : Bool)
    (console : Console) : Outcome ε :=
  match content with
  | none =>
    match console.sink.write ("path " ++ path ++ " cannot be found\n") with
    | .ok sink => ⟨{ console with sink }, #[], .ok 1⟩
    | .error f => ⟨console, #[], .error f⟩
  | some bytes =>
    match decode bytes with
    | .error f => ⟨console, #[], .error f⟩
    | .ok text =>
      match Memory.ofSize room memorySize with
      | .error f => ⟨console, (@booted ε _).journal, .error f⟩
      | .ok memory => execute path text debug (Machine.fresh memory console)

end Forth.SourceFile
