import Forth.CommandLine.Argument
import Forth.Memory

/-!
What a command line asks for. Arguments are taken from left to right, so the first mistake wins; a
request for help ends the reading.
-/
namespace Forth

/-- What a command line asks for. There is no memory size if the option for it was given without a number. -/
structure Options where
  path : Option String
  version : Bool
  memory : Option Int
  debug : Bool
  test : Bool
  deriving DecidableEq, Repr

namespace Options

def default : Options := ⟨none, false, some Memory.defaultSize, false, false⟩

inductive Stop where
  | help
  | usage (e : UsageError)
  deriving DecidableEq, Repr

/-- The options that one argument means, in order. A letter that takes no value may be followed by
another letter; what follows a letter that takes one is its value. -/
def cluster (s : Switch) (value : List Char) : Except UsageError (List (Switch × Option String)) :=
  if s.takesValue then .ok [(s, some (String.ofList value))]
  else match value with
    | [] => .error (.unusedValue s "")
    | c :: rest =>
      match Switch.letters.lookup c with
      | none => .error (.unusedValue s (String.ofList (c :: rest)))
      | some next =>
        match rest with
        | [] => .ok [(s, none), (next, none)]
        | _ :: _ => (cluster next rest).map ((s, none) :: ·)

/-- The options that one argument means, each with its value if it has been given one. -/
def expand (s : Switch) (long : Bool) (value : Option String) :
    Except UsageError (List (Switch × Option String)) :=
  match value with
  | none => .ok [(s, none)]
  | some text =>
    if long && !s.takesValue then .error (.unusedValue s text) else cluster s text.toList

/-- The text of the separator. As a value it stands for no value at all. -/
def separator : String := "--"

def apply (o : Options) (s : Switch) (value : String) : Except Stop Options :=
  match s with
  | .help => .error .help
  | .version => .ok { o with version := true }
  | .debug => .ok { o with debug := true }
  | .test => .ok { o with test := true }
  | .memory =>
    if value = separator then .ok { o with memory := none }
    else match Numeral.readCount? value with
      | some n => .ok { o with memory := some n }
      | none => .error (.usage (.invalidNumber .memory value))

/-- Take options in order; those without a value of their own get `value`. -/
def applyAll (o : Options) (value : String) : List (Switch × Option String) → Except Stop Options
  | [] => .ok o
  | (s, own) :: rest =>
    match o.apply s (own.getD value) with
    | .error e => .error e
    | .ok o => applyAll o value rest

def lacking? (switches : List (Switch × Option String)) : Option Switch :=
  (switches.find? fun (s, value) => s.takesValue && value.isNone).map (·.1)

structure Progress where
  options : Options
  pathGiven : Bool
  extras : List String
  deriving DecidableEq, Repr

namespace Progress

def addExtra (p : Progress) (text : String) : Progress :=
  { p with extras := p.extras ++ [text] }

def setPath (p : Progress) (text : String) : Progress :=
  { p with options := { p.options with path := some text }, pathGiven := true }

/-- Take the arguments from left to right. The first positional one is the path, and a separator just
before or after it belongs to it. -/
def take (p : Progress) : List Argument → Except Stop Progress
  | [] => .ok p
  | .positional text :: rest =>
    if p.pathGiven then take (p.addExtra text) rest
    else match rest with
      | .separator :: rest => take (p.setPath text) rest
      | rest => take (p.setPath text) rest
  | .separator :: rest =>
    if p.pathGiven then take (p.addExtra separator) rest
    else match rest with
      | .positional text :: rest => take (p.setPath text) rest
      | rest => take { p with pathGiven := true } rest
  | .unknown text :: rest => take (p.addExtra text) rest
  | .switch s long value :: rest =>
    match expand s long value with
    | .error e => .error (.usage e)
    | .ok switches =>
      match lacking? switches, rest with
      | none, rest =>
        match p.options.applyAll "" switches with
        | .error e => .error e
        | .ok options => take { p with options } rest
      | some _, .positional text :: rest =>
        match p.options.applyAll text switches with
        | .error e => .error e
        | .ok options => take { p with options } rest
      | some s, _ => .error (.usage (.missingValue s))

end Progress

def ofArgs (args : List String) : Except Stop Options :=
  match Argument.ofTexts args with
  | .error e => .error (.usage e)
  | .ok args =>
    match Progress.take ⟨default, false, []⟩ args with
    | .error e => .error e
    | .ok p => if p.extras.isEmpty then .ok p.options else .error (.usage (.unrecognized p.extras))

end Options

inductive Command where
  | showHelp
  | refuse (e : UsageError)
  | selfTest
  | showVersion
  | runFile (path : String) (memory : Int) (debug : Bool)
  | interact (memory : Int) (debug : Bool)
  | fail (f : Fault)
  deriving DecidableEq, Repr

/-- The request of a command line. Tests come before all else, and an empty path is none. A memory size is
only needed to run programs. -/
def Command.ofArgs (args : List String) : Command :=
  match Options.ofArgs args with
  | .error .help => .showHelp
  | .error (.usage e) => .refuse e
  | .ok o =>
    if o.test then .selfTest
    else if o.version then .showVersion
    else match o.memory with
      | none => .fail .missingNumber
      | some memory =>
        if memory < 0 then .refuse .negativeMemory
        else match o.path with
          | none => .interact memory o.debug
          | some path =>
            if path.isEmpty then .interact memory o.debug else .runFile path memory o.debug

end Forth
