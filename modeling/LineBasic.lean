import LineBasic.Cursor
import LineBasic.Expression.Leaves
import LineBasic.Expression.Reader
import LineBasic.Lexeme.Grammar
import LineBasic.Program.Basic
import LineBasic.Scanner.Tokenize
import LineBasic.Statement.Lexemes
import LineBasic.Proofs.Lexing.Scan
import LineBasic.Proofs.Lexing.Tokenize
import LineBasic.Proofs.Lexing.Layout
import LineBasic.Proofs.Lexing.FirstDefect
import LineBasic.Proofs.Lexing.Session
import LineBasic.Proofs.Lexing.Refinement
import LineBasic.Proofs.Lexing.Boundary
import LineBasic.Proofs.Lexing.Progress
import LineBasic.Proofs.Lexing.Relocation
import LineBasic.Proofs.Lexing.Concatenation
import LineBasic.Proofs.Lexing.Lookahead
import LineBasic.Proofs.Reading.Derivation
import LineBasic.Proofs.Reading.Grouping
import LineBasic.Proofs.Reading.Unambiguous
import LineBasic.Proofs.Reading.Pairs
import LineBasic.Proofs.Printing.Decimal
import LineBasic.Proofs.Printing.GroupingText
import LineBasic.Proofs.Printing.PrintedGrouping
import LineBasic.Proofs.Printing.RoundTrip
import LineBasic.Proofs.Printing.NeededParentheses
import LineBasic.Proofs.Printing.PathLexemes
import LineBasic.Proofs.Printing.UnaryParentheses
import LineBasic.Proofs.Printing.LineLexemes
import LineBasic.Proofs.Printing.FewestParentheses
import LineBasic.Proofs.Printing.Listing
import LineBasic.Proofs.Printing.RowBreak
import LineBasic.Proofs.Printing.SmallestLiteral
import LineBasic.Proofs.Printing.EnclosedOperands
import LineBasic.Proofs.Editing.Lookup
import LineBasic.Proofs.Editing.FiniteMap
import LineBasic.Proofs.Editing.Placement
import LineBasic.Proofs.Editing.InsertionOrder
import LineBasic.Proofs.Editing.LineIndex
import LineBasic.Proofs.Editing.DanglingJumps
import LineBasic.Proofs.Editing.IndexedSearch
