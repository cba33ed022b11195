import DocTypes.Bracket.Match
import DocTypes.Bracket.Split
import DocTypes.Catalogue
import DocTypes.CommandLine.Options
import DocTypes.CommandLine.Run
import DocTypes.Config
import DocTypes.Decimal.Binary64
import DocTypes.Decimal.Layout
import DocTypes.Decimal.Shortest
import DocTypes.Doclet
import DocTypes.Doclet.Comment
import DocTypes.Doclet.Grove
import DocTypes.Doclet.Nesting
import DocTypes.Doclet.Record
import DocTypes.Growth
import DocTypes.Growth.Flaw
import DocTypes.Growth.Linked
import DocTypes.Growth.Span
import DocTypes.Json
import DocTypes.Json.Display
import DocTypes.Json.Equality
import DocTypes.Json.Printer
import DocTypes.Lowering
import DocTypes.Lowering.Defect
import DocTypes.Lowering.Graph
import DocTypes.Naming
import DocTypes.Naming.Callback
import DocTypes.Naming.Record
import DocTypes.Node
import DocTypes.Node.Graph
import DocTypes.Node.Listing
import DocTypes.Numeral
import DocTypes.Piece
import DocTypes.Proofs.Bracket.Nested
import DocTypes.Report
import DocTypes.Report.Log
import DocTypes.Report.Subject
import DocTypes.Run
import DocTypes.Session
import DocTypes.Text.Blank
import DocTypes.Text.DecimalDigit
import DocTypes.Text.Letters
import DocTypes.Text.Lines
import DocTypes.Text.Printable
import DocTypes.Text.Quoted
import DocTypes.Token
import DocTypes.Token.Lexer
import DocTypes.TsType
import DocTypes.TsType.Equality
import DocTypes.TsType.Keyword
import DocTypes.TsType.Printer
import DocTypes.Main
import DocTypes.Proofs.Piece.Cover
import DocTypes.Proofs.Bracket.Tidy
import DocTypes.Proofs.Piece.Tidy
import DocTypes.Proofs.Growth.Alarm
import DocTypes.Proofs.Growth.Silence
import DocTypes.Proofs.Lowering.Strict
import DocTypes.Proofs.Naming.Strict
import DocTypes.Proofs.Naming.Conforming
import DocTypes.Proofs.Naming.Layout
import DocTypes.Proofs.Session
import DocTypes.Proofs.Token.Written
import DocTypes.Proofs.Expression
import DocTypes.Proofs.Expression.Pieces
import DocTypes.Proofs.Expression.Tree
import DocTypes.Proofs.Expression.Depth
import DocTypes.Proofs.Expression.Arguments
import DocTypes.Proofs.Growth.Linked
import DocTypes.Proofs.Growth.Related
import DocTypes.Proofs.Growth.Source
import DocTypes.Proofs.Lowering.Exposed
import DocTypes.Proofs.Growth.Nodes
import DocTypes.Proofs.Growth.Shape
import DocTypes.Proofs.Growth.Depth
import DocTypes.Proofs.TsType.Readable
import DocTypes.Proofs.TsType.Reading
import DocTypes.Proofs.TsType.Unambiguous
import DocTypes.Proofs.Bracket.Attached
import DocTypes.Proofs.Bracket.Barred
import DocTypes.Proofs.Piece.Barred
import DocTypes.Proofs.Growth.Barred
import DocTypes.Proofs.Growth.Siblings
import DocTypes.Proofs.CommandLine.Record
import DocTypes.Proofs.CommandLine.Turns
import DocTypes.Proofs.Doclet.Grove
import DocTypes.Proofs.Doclet.Nesting
import DocTypes.Proofs.Doclet.Place
import DocTypes.Proofs.Growth.Unclosed
import DocTypes.Proofs.Growth.Halted
import DocTypes.Proofs.Lowering.Conforming
import DocTypes.Proofs.Naming.Record
import DocTypes.Proofs.TsType.Member
import DocTypes.Proofs.Naming.Marks
import DocTypes.Proofs.Text.Lines
import DocTypes.Proofs.TsType.Comment
import DocTypes.Proofs.Doclet.Comment
import DocTypes.Proofs.Naming.Comments
import DocTypes.Proofs.Naming.Reported
import DocTypes.Proofs.Naming.Signature
import DocTypes.Naming.Calls
import DocTypes.Proofs.Naming.Calls
import DocTypes.Proofs.Naming.Answers
import DocTypes.Proofs.Naming.Ending
import DocTypes.Proofs.Doclet.Record
import DocTypes.Proofs.Token.Spelled
import DocTypes.Proofs.Node.Listing
import DocTypes.Proofs.Piece.Name
import DocTypes.Proofs.Piece.Spans
import DocTypes.Proofs.Growth.Trees
import DocTypes.Proofs.Growth.Names
import DocTypes.Proofs.Bracket.Partner
import DocTypes.Proofs.Bracket.Cut
import DocTypes.Proofs.Piece.Reach
import DocTypes.Proofs.Growth.Reach
