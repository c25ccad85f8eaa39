import Outline.Text.Ranges
import Outline.Text.Alphabetic
import Outline.Text.Numeric
import Outline.Text.Hidden
import Outline.Text.Blank
import Outline.Text.Basic
import Outline.Text.Word
import Outline.Text.Quoting
import Outline.Text.Nesting
import Outline.Text.Place
import Outline.Text.Quoted
import Outline.Text.NameSet
import Outline.Error
import Outline.Json
import Outline.Config.Basic
import Outline.Config.Reader
import Outline.Line.Basic
import Outline.Line.Scan
import Outline.Forest
import Outline.Node.Basic
import Outline.Node.Nest
import Outline.Node.Listing
import Outline.Header.Letter
import Outline.Header.Edition
import Outline.Header.Grammar
import Outline.Header.Basic
import Outline.Header.Range
import Outline.Expression.Template
import Outline.Expression.Token
import Outline.Expression.Basic
import Outline.Expression.Unfold
import Outline.Symbols
import Outline.Classify.Fault
import Outline.Classify.Data
import Outline.Classify.Statement
import Outline.Classify.Basic
import Outline.Program.Data
import Outline.Program.Basic
import Outline.Program.Layout
import Outline.Diagnostic.Basic
import Outline.Diagnostic.Unresolved
import Outline.Document
import Outline.Command.Files
import Outline.Command.Options
import Outline.Command.Run
import Outline.Main
import Outline.Proofs.Outcome
import Outline.Proofs.Data
import Outline.Proofs.Text
import Outline.Proofs.Nest
import Outline.Proofs.Scan
import Outline.Proofs.Classify
import Outline.Proofs.Header
import Outline.Proofs.Names
import Outline.Proofs.Anchored
import Outline.Proofs.Settled
import Outline.Proofs.Expression
import Outline.Proofs.Statement
import Outline.Proofs.Layout
import Outline.Proofs.Scope
import Outline.Proofs.Numbering
import Outline.Proofs.Alike
import Outline.Proofs.Written
import Outline.Proofs.Reindent
import Outline.Proofs.Typed
import Outline.Proofs.Prefix
import Outline.Proofs.Comments
import Outline.Proofs.Template
import Outline.Proofs.Interpolation
import Outline.Proofs.Declared
import Outline.Proofs.Blocks
import Outline.Proofs.Lossless
import Outline.Proofs.Literal
import Outline.Proofs.Balance
import Outline.Proofs.PassThrough
import Outline.Proofs.Strings
import Outline.Proofs.Trailing
import Outline.Proofs.Printed
import Outline.Proofs.Marks
import Outline.Proofs.Verbatim
import Outline.Proofs.Grammar
import Outline.Proofs.HeaderGrammar
import Outline.Proofs.Sugar
import Outline.Proofs.BalancedRows
import Outline.Proofs.Known
import Outline.Proofs.Commas
import Outline.Proofs.Elements
import Outline.Proofs.Pointing
import Outline.Proofs.Indentation
import Outline.Proofs.Modules
import Outline.Proofs.Roots
import Outline.Proofs.Advice
import Outline.Proofs.Members
import Outline.Proofs.Gathered
import Outline.Proofs.Reported
import Outline.Proofs.Checked.Basic
import Outline.Proofs.Checked.Text
import Outline.Proofs.Checked.Token
import Outline.Proofs.Checked.Expression
import Outline.Proofs.Checked.Line
import Outline.Proofs.Checked.Classify
import Outline.Proofs.Checked.Program
import Outline.Proofs.Checked.Document
import Outline.Proofs.Identifier
import Outline.Proofs.Pieces
import Outline.Proofs.Occurrence
import Outline.Proofs.Keyword
import Outline.Proofs.Unresolved
import Outline.Proofs.PlaceGrammar
import Outline.Proofs.OnePass
import Outline.Proofs.Quotation
