import Forth.Text.Blank
import Forth.Text.Digit
import Forth.Text.Visible
import Forth.Text.Quoted
import Forth.Decimal
import Forth.Numeral
import Forth.Token
import Forth.Cell
import Forth.Failure
import Forth.Stack
import Forth.Memory
import Forth.Word
import Forth.Dictionary
import Forth.Variables
import Forth.Console
import Forth.Machine
import Forth.Simple
import Forth.Scan
import Forth.Step
import Forth.Lookahead
import Forth.Evaluate
import Forth.Interpreter
import Forth.Standard
import Forth.DotCommand
import Forth.Prompt
import Forth.SourceFile
import Forth.Journal
import Forth.CommandLine.Switch
import Forth.CommandLine.Argument
import Forth.CommandLine.Options
import Forth.Program
import Forth.Workspace
import Forth.SelfTest.All
import Forth.Main
import Forth.Proofs.Plan
import Forth.Proofs.Objections
import Forth.Proofs.Horizon
import Forth.Proofs.Landmarks
import Forth.Proofs.Walk
import Forth.Proofs.Scans
import Forth.Proofs.Composition
import Forth.Proofs.Frames
import Forth.Proofs.Invariants
import Forth.Proofs.Contexts
import Forth.Proofs.Faults
import Forth.Proofs.Growth
import Forth.Proofs.Engine
import Forth.Proofs.Turns
import Forth.Proofs.Scoping
import Forth.Proofs.Tree.Evaluate
import Forth.Proofs.Tree.Scanning
import Forth.Proofs.Tree.Vocabulary
import Forth.Proofs.Tree.Agreement
import Forth.Proofs.Tree.Standard
import Forth.Proofs.Lockstep
import Forth.Proofs.Locality
import Forth.Proofs.Nesting
import Forth.Proofs.Inlining
import Forth.Proofs.UnusedWords
import Forth.Proofs.BackEnds
import Forth.Proofs.Literals
import Forth.Proofs.Spacing
import Forth.Proofs.Prompts
import Forth.Proofs.Output
import Forth.Proofs.Transcripts
import Forth.Proofs.Clones
import Forth.Proofs.Branching
import Forth.Proofs.Loops
import Forth.Proofs.Definitions
import Forth.Proofs.Sessions
import Forth.Proofs.Atomicity
import Forth.Proofs.Underflow
import Forth.Proofs.Redirection
import Forth.Proofs.Listings
import Forth.Proofs.StackEffects
import Forth.Proofs.Composites
import Forth.Proofs.Numbers
import Forth.Proofs.Asking
import Forth.Proofs.Division
import Forth.Proofs.Layouts
