import Highlighter.Text.CodeRange
import Highlighter.Text.WordRanges
import Highlighter.Text.Chars
import Highlighter.Text.Basic
import Highlighter.Text.Scan
import Highlighter.Text.Offset
import Highlighter.Span
import Highlighter.Tiling
import Highlighter.Context
import Highlighter.Division
import Highlighter.Lexeme
import Highlighter.Listing
import Highlighter.Statement.Import
import Highlighter.Statement.Definition
import Highlighter.Statement.Assignment
import Highlighter.Statement.Conditional
import Highlighter.Statement.Call
import Highlighter.Statement.Comparison
import Highlighter.Statement
import Highlighter.Category
import Highlighter.Form
import Highlighter.Markup.Basic
import Highlighter.Markup.Piece
import Highlighter.Markup.Source
import Highlighter.Render.Basic
import Highlighter.Render.Html
import Highlighter.Render.Terminal
import Highlighter.Page
import Highlighter.Source.Failure
import Highlighter.Source.Loading
import Highlighter.Command.Request
import Highlighter.Command.Arguments
import Highlighter.Command.Outcome
import Highlighter.Main
import Highlighter.Proofs.Cores
import Highlighter.Proofs.Rows
import Highlighter.Proofs.Forms
import Highlighter.Proofs.Descent
import Highlighter.Proofs.Places
import Highlighter.Proofs.Slicing
import Highlighter.Proofs.SlicedMarkup
import Highlighter.Proofs.Lossless
import Highlighter.Proofs.WellFormed
import Highlighter.Proofs.Spans
import Highlighter.Proofs.Extraction
import Highlighter.Proofs.Occurrences
import Highlighter.Proofs.Escaping
import Highlighter.Proofs.HtmlGrammar
import Highlighter.Proofs.HtmlReading
import Highlighter.Proofs.TerminalReading
import Highlighter.Proofs.Truncation
import Highlighter.Proofs.PlainForm
import Highlighter.Proofs.HtmlFaithful
import Highlighter.Proofs.Balanced
import Highlighter.Proofs.Lines
import Highlighter.Proofs.Arguments
import Highlighter.Proofs.Groups
import Highlighter.Proofs.Separators
import Highlighter.Proofs.Lexemes
import Highlighter.Proofs.Surroundings
import Highlighter.Proofs.Categories
import Highlighter.Proofs.Kinds
import Highlighter.Proofs.Comparisons
import Highlighter.Proofs.Literals
import Highlighter.Proofs.Imports
import Highlighter.Proofs.Hints
import Highlighter.Proofs.TrimmedPieces
import Highlighter.Proofs.Signatures
import Highlighter.Proofs.SourceLines
import Highlighter.Proofs.Quotes
import Highlighter.Proofs.AtomicPieces
import Highlighter.Proofs.Pages
import Highlighter.Proofs.CommandLines
import Highlighter.Proofs.Outcomes
import Highlighter.Proofs.PatternTests
