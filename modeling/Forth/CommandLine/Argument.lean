import Forth.CommandLine.Switch
import Forth.Text.Digit

/-!
Telling arguments apart. An argument is an option if it is one by its full name, by a beginning that only
one long name has, or by the letter it starts with; what looks like a negative number, holds a space or
does not start with a minus sign is positional.
-/
namespace Forth

inductive Argument where
  | positional (text : String)
  | separator
  | switch (s : Switch) (long : Bool) (value : Option String)
  | unknown (text : String)
  deriving DecidableEq, Repr

namespace Argument

def cutAtEquals (cs : List Char) : List Char × Option String :=
  match cs.dropWhile (· ≠ '=') with
  | [] => (cs, none)
  | _ :: value => (cs.takeWhile (· ≠ '='), some (String.ofList value))

def isDigit (c : Char) : Bool := (Text.digitValue? c).isSome

/-- A minus sign and digits, with at most one point before the last of them. A final line feed does not
count. -/
def looksNegative (cs : List Char) : Bool :=
  match cs with
  | '-' :: rest =>
    let body := if rest.getLast? = some '\n' then rest.dropLast else rest
    let fraction := body.dropWhile isDigit
    match fraction with
    | [] => !body.isEmpty
    | c :: ds => c = '.' && !ds.isEmpty && ds.all isDigit
  | _ => false

/-- The options that an abbreviated or clustered argument may mean. -/
def candidates (cs : List Char) : List (String × Argument) :=
  match cs with
  | '-' :: '-' :: _ =>
    let (name, value) := cutAtEquals cs
    (Switch.longNames.filter fun (long, _) => name.isPrefixOf long.toList).map fun (long, s) =>
      (long, .switch s true value)
  | '-' :: c :: rest =>
    match Switch.letters.lookup c with
    | some s => [(String.ofList ['-', c], .switch s false (some (String.ofList rest)))]
    | none => []
  | _ => []

def ofText (arg : String) : Except UsageError Argument :=
  let cs := arg.toList
  match cs with
  | '-' :: _ :: _ =>
    if cs = ['-', '-'] then .ok .separator
    else match Switch.named? cs with
      | some (s, long) => .ok (.switch s long none)
      | none =>
        let (name, value) := cutAtEquals cs
        match value, Switch.named? name with
        | some _, some (s, long) => .ok (.switch s long value)
        | _, _ =>
          match candidates cs with
          | [(_, a)] => .ok a
          | [] =>
            if looksNegative cs || cs.contains ' ' then .ok (.positional arg)
            else .ok (.unknown arg)
          | several => .error (.ambiguous arg (several.map (·.1)))
  | _ => .ok (.positional arg)

/-- Tell what all arguments are. After the separator they are positional. -/
def ofTexts : List String → Except UsageError (List Argument)
  | [] => .ok []
  | arg :: args => do
    match ← ofText arg with
    | .separator => return .separator :: args.map .positional
    | a => return a :: (← ofTexts args)

end Argument

end Forth
