import Forth.Numeral

/-!
Why evaluation fails. A `Cause` is a condition that the language classifies; a `Failure` is a cause with
the contexts gathered on its way out, innermost first. A `Fault` is outside the classification: no frame
adds a context to it and no prompt reports it.
-/
namespace Forth

inductive Kind where
  | forth
  | stackUnderflow
  | unknownWord
  | divisionByZero
  | unterminatedConstruct
  | unterminatedComment
  | unterminatedDefinition
  | unterminatedIf
  | unterminatedElse
  | unterminatedLoop
  | unterminatedString
  | definition
  | duplicateDefinition
  | missingName
  | nestedDefinition
  | nestedDefinitionInConditional
  | nestedDefinitionInLoop
  | nameCollidesWithWord
  | nameCollidesWithVariable
  | missingIdentifier
  | unknownVariable
  | notAVariable
  | indexOutsideLoop
  | memoryAccess
  | inputExhausted
  | returnStackOverflow
  deriving DecidableEq, Repr

namespace Kind

def parent? : Kind → Option Kind
  | .forth => none
  | .unterminatedComment | .unterminatedDefinition | .unterminatedIf | .unterminatedElse
  | .unterminatedLoop | .unterminatedString => some .unterminatedConstruct
  | .duplicateDefinition | .missingName | .nestedDefinition | .nestedDefinitionInConditional
  | .nestedDefinitionInLoop => some .definition
  | _ => some .forth

/-- A class and the wider ones, up to the widest. No class has more than two wider ones. -/
def lineage (k : Kind) : List Kind :=
  match k.parent? with
  | none => [k]
  | some p => k :: p :: p.parent?.toList

def message : Kind → String
  | .forth | .unterminatedConstruct | .definition => "FORTH ERROR"
  | .stackUnderflow => "STACK UNDERFLOW"
  | .unknownWord => "UNKNOWN WORD"
  | .divisionByZero => "DIVISION BY ZERO"
  | .unterminatedComment => "UNTERMINATED COMMENT"
  | .unterminatedDefinition => "UNTERMINATED DEFINITION"
  | .unterminatedIf => "UNTERMINATED IF"
  | .unterminatedElse => "UNTERMINATED ELSE"
  | .unterminatedLoop => "UNTERMINATED LOOP"
  | .unterminatedString => "UNTERMINATED STRING"
  | .duplicateDefinition => "WORD ALREADY EXISTS"
  | .missingName => "NO WORD NAME GIVEN"
  | .nestedDefinition => ": INSIDE :"
  | .nestedDefinitionInConditional => ": INSIDE if"
  | .nestedDefinitionInLoop => ": INSIDE do"
  | .nameCollidesWithWord => "NAME IS ALREADY A WORD"
  | .nameCollidesWithVariable => "NAME IS ALREADY A VARIABLE"
  | .missingIdentifier => "NO IDENTIFIER GIVEN"
  | .unknownVariable => "UNKNOWN VARIABLE"
  | .notAVariable => "NOT A VARIABLE"
  | .indexOutsideLoop => "index OUTSIDE do LOOP"
  | .memoryAccess => "ADDRESS OUT OF RANGE"
  | .inputExhausted => "INPUT EXHAUSTED"
  | .returnStackOverflow => "RETURN STACK OVERFLOW"

end Kind

inductive Cause where
  | stackUnderflow
  | unknownWord (token : String)
  | divisionByZero
  | unterminatedComment
  | unterminatedDefinition
  | unterminatedIf
  | unterminatedElse
  | unterminatedLoop
  | unterminatedString
  | duplicateDefinition (name : String)
  | missingName
  | nestedDefinition
  | definitionInIf
  | definitionInElse
  | definitionInLoop
  | nameIsWord (name : String)
  | nameIsVariable (name : String)
  | missingIdentifier
  | unknownVariable (name : String)
  | notAVariable (name : String)
  | indexOutsideLoop
  | addressOutOfRange (address : Int) (size : Nat)
  | inputExhausted
  | returnStackOverflow
  | raised (kind : Kind) (message : Option String)
  deriving DecidableEq, Repr

namespace Cause

@[simp] def kind : Cause → Kind
  | .stackUnderflow => .stackUnderflow
  | .unknownWord _ => .unknownWord
  | .divisionByZero => .divisionByZero
  | .unterminatedComment => .unterminatedComment
  | .unterminatedDefinition => .unterminatedDefinition
  | .unterminatedIf => .unterminatedIf
  | .unterminatedElse => .unterminatedElse
  | .unterminatedLoop => .unterminatedLoop
  | .unterminatedString => .unterminatedString
  | .duplicateDefinition _ => .duplicateDefinition
  | .missingName => .missingName
  | .nestedDefinition => .nestedDefinition
  | .definitionInIf | .definitionInElse => .nestedDefinitionInConditional
  | .definitionInLoop => .nestedDefinitionInLoop
  | .nameIsWord _ => .nameCollidesWithWord
  | .nameIsVariable _ => .nameCollidesWithVariable
  | .missingIdentifier => .missingIdentifier
  | .unknownVariable _ => .unknownVariable
  | .notAVariable _ => .notAVariable
  | .indexOutsideLoop => .indexOutsideLoop
  | .addressOutOfRange .. => .memoryAccess
  | .inputExhausted => .inputExhausted
  | .returnStackOverflow => .returnStackOverflow
  | .raised kind _ => kind

def message : Cause → String
  | .unknownWord token => "UNKNOWN WORD '" ++ token ++ "'"
  | .duplicateDefinition name => "WORD '" ++ name ++ "' ALREADY EXISTS"
  | .definitionInElse => ": INSIDE else"
  | .nameIsWord name => "'" ++ name ++ "' IS ALREADY A WORD"
  | .nameIsVariable name => "'" ++ name ++ "' IS ALREADY A VARIABLE"
  | .unknownVariable name => "UNKNOWN VARIABLE '" ++ name ++ "'"
  | .notAVariable name => "'" ++ name ++ "' IS A WORD, NOT A VARIABLE"
  | .addressOutOfRange address size =>
    "ADDRESS " ++ Numeral.text address ++ " OUT OF RANGE [0, " ++ size.repr ++ ")"
  | .raised kind message => message.getD kind.message
  | c => c.kind.message

end Cause

structure Failure where
  cause : Cause
  contexts : List String
  deriving DecidableEq, Repr

namespace Failure

def addContext (f : Failure) (context : String) : Failure :=
  { f with contexts := f.contexts ++ [context] }

/-- The whole report: the message, then where it happened, from the inside out. -/
def report (f : Failure) : String :=
  if f.contexts.isEmpty then f.cause.message
  else f.cause.message ++ " at: " ++ String.intercalate " | in: " f.contexts

end Failure

inductive Fault where
  | digitLimit
  | indexOutOfRange
  | unsupported
  | interrupted
  | negativeSize
  | beyondWord
  | outOfMemory
  | missingNumber
  | invalidUtf8
  | wandering
  deriving DecidableEq, Repr

/-- What is said of a fault that ends the program. -/
def Fault.message : Fault → String
  | .digitLimit => "a number has too many digits"
  | .indexOutOfRange => "a position is out of range"
  | .unsupported => "the console cannot do this"
  | .interrupted => "interrupted"
  | .negativeSize => "a memory region cannot have a negative size"
  | .beyondWord => "a size or a position does not fit into a word"
  | .outOfMemory => "there is no room for so many memory cells"
  | .missingNumber => "the memory size is not a number"
  | .invalidUtf8 => "the source file is not valid UTF-8"
  | .wandering => "the cursor was moved too often"

inductive Trouble where
  | cause (c : Cause)
  | fault (f : Fault)
  deriving DecidableEq, Repr

inductive Abort where
  | failed (f : Failure)
  | fault (f : Fault)
  deriving DecidableEq, Repr

end Forth
