import Treewalk.Pos
import Treewalk.Diagnostic
import Treewalk.Ty
import Treewalk.Text.Blank
import Treewalk.Text.Hidden
import Treewalk.Text.Quoted
import Treewalk.Text.Search
import Treewalk.Decimal.Binary
import Treewalk.Decimal.Digits
import Treewalk.Decimal.Shortest
import Treewalk.Decimal.Rounded
import Treewalk.Decimal.Literal
import Treewalk.Token
import Treewalk.Token.Error
import Treewalk.Token.Piece
import Treewalk.Token.Stream
import Treewalk.Tree.Operator
import Treewalk.Tree.Expr
import Treewalk.Tree.Program
import Treewalk.Grammar.Error
import Treewalk.Grammar.Basic
import Treewalk.Grammar.Type
import Treewalk.Grammar.Expr
import Treewalk.Grammar.Stmt
import Treewalk.Grammar.Program
import Treewalk.Value.FloatText
import Treewalk.Value.Basic
import Treewalk.Value.Datum
import Treewalk.Value.Heap
import Treewalk.Template.Directive
import Treewalk.Template.Render
import Treewalk.Fault
import Treewalk.Machine.Bindings
import Treewalk.Machine.State
import Treewalk.Machine.Storage
import Treewalk.Machine.Operate
import Treewalk.Machine.Expression
import Treewalk.Machine.Statement
import Treewalk.Machine.Calling
import Treewalk.Machine.Loading
import Treewalk.Machine.Limit
import Treewalk.Report.Paint
import Treewalk.Report.Hint
import Treewalk.Report.Excerpt
import Treewalk.Report.Outcome
import Treewalk.Main
import Treewalk.Proofs.Effects
import Treewalk.Proofs.Places
import Treewalk.Proofs.Quiet
import Treewalk.Proofs.Lockstep.Discipline
import Treewalk.Proofs.Lockstep.Expression
import Treewalk.Proofs.Lockstep.Statement
import Treewalk.Proofs.Lockstep.Program
import Treewalk.Proofs.Unrolling
import Treewalk.Proofs.Bindings
import Treewalk.Proofs.Outline
import Treewalk.Proofs.Termination
import Treewalk.Proofs.Reach
import Treewalk.Proofs.CallStack
import Treewalk.Proofs.Typing
import Treewalk.Proofs.Kinds
import Treewalk.Proofs.Cutoff
import Treewalk.Proofs.DepthLimit
import Treewalk.Proofs.Isolation
import Treewalk.Proofs.Scoping
import Treewalk.Proofs.Footprint
import Treewalk.Proofs.Distinct
import Treewalk.Proofs.Separation
import Treewalk.Proofs.History
import Treewalk.Proofs.Blame
import Treewalk.Proofs.Updates
import Treewalk.Proofs.Constants
import Treewalk.Proofs.Lexing.Lexeme
import Treewalk.Proofs.Lexing.Number
import Treewalk.Proofs.Lexing.Reader
import Treewalk.Proofs.Lexing.Layout
import Treewalk.Proofs.Parsing.Print
import Treewalk.Proofs.Parsing.Reading
import Treewalk.Proofs.Parsing.Expressions
import Treewalk.Proofs.Parsing.Statements
import Treewalk.Proofs.Parsing.Groups
import Treewalk.Proofs.Parsing.Outcomes
import Treewalk.Proofs.Parsing.Derivations
import Treewalk.Proofs.Parsing.Soundness
import Treewalk.Proofs.Parsing.Programs
import Treewalk.Proofs.Parsing.Progress
import Treewalk.Proofs.Parsing.Yield
import Treewalk.Proofs.Output
import Treewalk.Proofs.FunctionOrder
import Treewalk.Proofs.Lexing.Lines
import Treewalk.Proofs.Lexing.Borders
import Treewalk.Proofs.Lexing.Spelling
import Treewalk.Proofs.Targets
import Treewalk.Proofs.Assignment
import Treewalk.Proofs.Pending
import Treewalk.Proofs.Wrapping
import Treewalk.Proofs.Duality
import Treewalk.Proofs.Templates
import Treewalk.Proofs.Printing
import Treewalk.Proofs.Handles
import Treewalk.Proofs.Lexing.Faults
import Treewalk.Proofs.Excerpts
import Treewalk.Proofs.Clashes
import Treewalk.Proofs.TypeText
import Treewalk.Proofs.Decimal.Numeral
import Treewalk.Proofs.Decimal.Nearest
import Treewalk.Proofs.Decimal.Shortest
import Treewalk.Proofs.FloatText
import Treewalk.Proofs.Hints
