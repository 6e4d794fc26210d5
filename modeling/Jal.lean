import Jal.CommandLine
import Jal.Diagnostic
import Jal.Fault
import Jal.Grammar.Cursor
import Jal.Grammar.Expression
import Jal.Grammar.Program
import Jal.Grammar.Recovery
import Jal.Grammar.Statement
import Jal.Heap.Basic
import Jal.Heap.Equal
import Jal.Heap.Render
import Jal.Heap.Unvisited
import Jal.Machine.Basic
import Jal.Machine.Console
import Jal.Machine.Eval
import Jal.Machine.Names
import Jal.Machine.Operators
import Jal.Main
import Jal.Number.Binary
import Jal.Number.Numeral
import Jal.Number.Shortest
import Jal.Program.Expr
import Jal.Program.Render
import Jal.Program.Stmt
import Jal.Scope.Basic
import Jal.Scope.Resolve
import Jal.Session
import Jal.Text.Blank
import Jal.Text.Printable
import Jal.Text.Quoted
import Jal.Text.Ranges
import Jal.Token
import Jal.Token.Scan
import Jal.Token.Segment
import Jal.Value.Basic
import Jal.Proofs.Machine.Respects
import Jal.Proofs.Machine.Standing
import Jal.Proofs.Grammar.Derivation
import Jal.Proofs.Grammar.Sound
import Jal.Proofs.Grammar.Complete
import Jal.Proofs.Grammar.Advances
import Jal.Proofs.Grammar.Readback
import Jal.Proofs.Grammar.RoundTrip
import Jal.Proofs.Grammar.Clauses
import Jal.Proofs.Grammar.Survivors
import Jal.Proofs.Scope.Orderly
import Jal.Proofs.Scope.Misplaced
import Jal.Proofs.Heap.Growth
import Jal.Proofs.Machine.Activity
import Jal.Proofs.Machine.Fits
import Jal.Proofs.Machine.Course
import Jal.Proofs.Machine.References
import Jal.Proofs.Machine.Undefined
import Jal.Proofs.Session.References
import Jal.Proofs.Machine.Breaks
import Jal.Proofs.Heap.Equality
import Jal.Proofs.Token.Segmentation
import Jal.Proofs.Program.Lines
import Jal.Proofs.Grammar.Lines
import Jal.Proofs.Grammar.Bounds
import Jal.Proofs.Grammar.Attempts
import Jal.Proofs.Machine.Routines
import Jal.Proofs.Machine.Lines
import Jal.Proofs.Session.Lines
import Jal.Proofs.Machine.Closures
import Jal.Proofs.Session.Returns
import Jal.Proofs.Session.Identities
import Jal.Proofs.Grammar.NearestIf
import Jal.Proofs.Scope.Lexical
import Jal.Proofs.Machine.Blind
import Jal.Proofs.Machine.Refusal
import Jal.Proofs.Machine.CutOff
import Jal.Proofs.Session.Refusal
import Jal.Proofs.Machine.Fixed
import Jal.Proofs.Machine.Lasting
import Jal.Proofs.Scope.Heirs
import Jal.Proofs.Session.Super
import Jal.Proofs.Token.Lines
import Jal.Proofs.Program.Leaves
import Jal.Proofs.Grammar.Leaves
import Jal.Proofs.Program.Renumber
import Jal.Proofs.Grammar.Situations
import Jal.Proofs.Grammar.Resumption
import Jal.Proofs.Grammar.MalformedLine
import Jal.Proofs.Token.Relexing
import Jal.Proofs.Token.TextLiterals
import Jal.Proofs.Machine.Construction
import Jal.Proofs.Session.Construction
import Jal.Proofs.Machine.Fuel
import Jal.Proofs.Machine.ForLoop
import Jal.Proofs.Scope.Occurrences
import Jal.Proofs.Scope.ForLoop
import Jal.Proofs.Session.ForLoop
import Jal.Proofs.Machine.Depth
import Jal.Proofs.Session.Depth
import Jal.Proofs.Heap.Rendering
import Jal.Proofs.Number.Numerals
import Jal.Proofs.Session.Input
import Jal.Proofs.Heap.Rooted
import Jal.Proofs.Machine.Rooted
import Jal.Proofs.Machine.Rooting
import Jal.Proofs.Session.Links
