import Forth.Failure

/-!
Input and output as data. A sink keeps what was written; a source hands out lines, cut from a text after each line
feed, from a queue, or answered by a user at a prompt.
-/
namespace Forth

/-- Where output goes: into one text, write by write with the latest first, or nowhere. -/
inductive Sink where
  | text (written : String)
  | events (latest : List String)
  | missing
  deriving DecidableEq, Repr

namespace Sink

def accepts : Sink → Bool
  | .missing => false
  | _ => true

/-- The sink after one more text; without a capability to write it stays as it is. -/
def append (s : Sink) (t : String) : Sink :=
  match s with
  | .text written => .text (written ++ t)
  | .events latest => .events (t :: latest)
  | .missing => .missing

def write (s : Sink) (t : String) : Except Fault Sink :=
  if s.accepts then .ok (s.append t) else .error .unsupported

/-- The single writes, in order; output kept as one text counts as one. -/
def writes : Sink → List String
  | .text written => [written]
  | .events latest => latest.reverse
  | .missing => []

def output : Sink → String
  | .text written => written
  | .events latest => String.join latest.reverse
  | .missing => ""

theorem accepts_append {s : Sink} (h : s.accepts = true) (t : String) : (s.append t).accepts = true := by
  cases s
  · rfl
  · rfl
  · cases h

theorem output_append {s : Sink} (h : s.accepts = true) (t : String) :
    (s.append t).output = s.output ++ t := by
  cases s
  · rfl
  · simp [append, output, String.join]
  · cases h

end Sink

inductive Answer where
  | line (text : String)
  | interrupt
  | endOfInput
  deriving DecidableEq, Repr

structure User where
  answers : List Answer
  prompts : Array String
  deriving DecidableEq, Repr

namespace User

/-- Show a prompt and take the answer. After the last one the input has ended. -/
def ask (u : User) (prompt : String) : Answer × User :=
  let prompts := u.prompts.push prompt
  match u.answers with
  | [] => (.endOfInput, ⟨[], prompts⟩)
  | a :: rest => (a, ⟨rest, prompts⟩)

end User

inductive Source where
  | text (rest : List Char)
  | queue (lines : List String)
  | user (u : User)
  | missing
  deriving DecidableEq, Repr

namespace Source

def isLineEnd (c : Char) : Bool := c = '\r' || c = '\n'

/-- Drop the carriage returns and line feeds at the end of a line. -/
def chomp (line : List Char) : String :=
  String.ofList (line.reverse.dropWhile isLineEnd).reverse

def inputPrompt : String := "? "

def readLine (s : Source) : Except Fault (Option String) × Source :=
  match s with
  | .text [] => (.ok none, s)
  | .text rest =>
    (.ok (some (chomp (rest.takeWhile (· ≠ '\n')))), .text ((rest.dropWhile (· ≠ '\n')).drop 1))
  | .queue [] => (.ok none, s)
  | .queue (line :: lines) => (.ok (some line), .queue lines)
  | .user u =>
    match u.ask inputPrompt with
    | (.line line, u) => (.ok (some line), .user u)
    | (.endOfInput, u) => (.ok none, .user u)
    | (.interrupt, u) => (.error .interrupted, .user u)
  | .missing => (.error .unsupported, s)

/-- A bound on the lines that are left. -/
def remaining : Source → Nat
  | .text rest => rest.length
  | .queue lines => lines.length
  | .user u => u.answers.length
  | .missing => 0

end Source

structure Console where
  sink : Sink
  source : Source
  deriving DecidableEq, Repr

namespace Console

def ofText (input : String) : Console := ⟨.text "", .text input.toList⟩

def ofLines (lines : List String) : Console := ⟨.events [], .queue lines⟩

def ofUser (answers : List Answer) : Console := ⟨.text "", .user ⟨answers, #[]⟩⟩

end Console
end Forth
