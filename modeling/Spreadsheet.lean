import Spreadsheet.Text
import Spreadsheet.Text.Utf8
import Spreadsheet.Text.Blank
import Spreadsheet.Text.Decimal
import Spreadsheet.Text.Printable
import Spreadsheet.Text.Quoted
import Spreadsheet.Value
import Spreadsheet.Ref.Column
import Spreadsheet.Ref
import Spreadsheet.Cells
import Spreadsheet.Grammar
import Spreadsheet.Grammar.Parse
import Spreadsheet.Grammar.Scan
import Spreadsheet.Log
import Spreadsheet.Sheet.Report
import Spreadsheet.Sheet
import Spreadsheet.Formula.Symbol
import Spreadsheet.Formula.Grammar
import Spreadsheet.Sheet.Evaluation
import Spreadsheet.Sheet.Program
import Spreadsheet.Output
import Spreadsheet.Sheet.Listing
import Spreadsheet.Viewer.Key
import Spreadsheet.Viewer.InputLine
import Spreadsheet.Viewer.Wrap
import Spreadsheet.Viewer.Canvas
import Spreadsheet.Viewer
import Spreadsheet.Viewer.Geometry
import Spreadsheet.Viewer.Session
import Spreadsheet.Viewer.Picture
import Spreadsheet.Viewer.InputBox
import Spreadsheet.Viewer.Control
import Spreadsheet.Toml.Lexeme
import Spreadsheet.Toml.Statement
import Spreadsheet.Toml.Document
import Spreadsheet.Files
import Spreadsheet.Inputs
import Spreadsheet.Source
import Spreadsheet.Settings
import Spreadsheet.Text.IntegerLiteral
import Spreadsheet.Command.Flags
import Spreadsheet.Command.Run
import Spreadsheet.Command
import Spreadsheet.Main
import Spreadsheet.Proofs.Word
import Spreadsheet.Proofs.Text.Trim
import Spreadsheet.Proofs.Text.Gap
import Spreadsheet.Proofs.Text.Decimal
import Spreadsheet.Proofs.Grammar.Triple
import Spreadsheet.Proofs.Formula.Syntax
import Spreadsheet.Proofs.Formula.Reading
import Spreadsheet.Proofs.Formula.Tree
import Spreadsheet.Proofs.Formula.Matching
import Spreadsheet.Proofs.Cells
import Spreadsheet.Proofs.Cells.History
import Spreadsheet.Proofs.Sheet.Dependency
import Spreadsheet.Proofs.Sheet.Refresh
import Spreadsheet.Proofs.Sheet.Evaluation
import Spreadsheet.Proofs.Sheet.CycleDetection
import Spreadsheet.Proofs.Formula.Validity
import Spreadsheet.Proofs.Formula.Writing
import Spreadsheet.Proofs.Formula.RoundTrip
import Spreadsheet.Proofs.Formula.Abstract
import Spreadsheet.Proofs.Sheet.Execution
import Spreadsheet.Proofs.Sheet.Interpreter
import Spreadsheet.Proofs.Sheet.CanonicalText
import Spreadsheet.Proofs.Sheet.Reachable
import Spreadsheet.Proofs.Sheet.Caches
import Spreadsheet.Proofs.Grammar.Refinement
import Spreadsheet.Proofs.Sheet.FailedParse
import Spreadsheet.Proofs.Sheet.Termination
import Spreadsheet.Proofs.Grammar.Layout
import Spreadsheet.Proofs.Formula.Layout
import Spreadsheet.Proofs.Sheet.Assignments
import Spreadsheet.Proofs.Sheet.Translation
import Spreadsheet.Proofs.Ref.Column
import Spreadsheet.Proofs.Ref.Label
import Spreadsheet.Proofs.Sheet.Rebuilding
import Spreadsheet.Proofs.Formula.Extension
import Spreadsheet.Proofs.Sheet.Concatenation
import Spreadsheet.Proofs.Sheet.Outline
import Spreadsheet.Proofs.Grammar.LeftRecursion
import Spreadsheet.Proofs.Viewer.Grid
import Spreadsheet.Proofs.Viewer.Session
import Spreadsheet.Proofs.Viewer.Keeping
import Spreadsheet.Proofs.Sheet.Listing
import Spreadsheet.Proofs.Command.Run
import Spreadsheet.Proofs.Formula.Factors
import Spreadsheet.Proofs.Sheet.Arithmetic
import Spreadsheet.Proofs.Sheet.Printing
import Spreadsheet.Proofs.Sheet.Freshness
import Spreadsheet.Proofs.Sheet.Settling
import Spreadsheet.Proofs.Ref.Offset
import Spreadsheet.Proofs.Sheet.PrintedValues
import Spreadsheet.Proofs.Viewer.Scrolling
import Spreadsheet.Proofs.Formula.Characters
import Spreadsheet.Proofs.Viewer.Prompt
import Spreadsheet.Proofs.Text.Words
import Spreadsheet.Proofs.Viewer.Wrap
import Spreadsheet.Proofs.Viewer.Canvas
import Spreadsheet.Proofs.Viewer.InputLine
import Spreadsheet.Proofs.Viewer.Picture
import Spreadsheet.Proofs.Viewer.Drawing
import Spreadsheet.Proofs.Grammar.ActionOrder
import Spreadsheet.Proofs.Grammar.Shape
import Spreadsheet.Proofs.Formula.Shape
import Spreadsheet.Proofs.Sheet.Strictness
