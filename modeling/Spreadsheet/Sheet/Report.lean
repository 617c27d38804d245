import Spreadsheet.Ref

/-! # Reports

A print statement reports the value of an expression or its text. If the expression is a single cell
reference, the report is about that cell.
-/
namespace Spreadsheet

inductive ReportKind where
  | value
  | expression
  deriving DecidableEq, Repr

def ReportKind.keyword : ReportKind → String
  | .value => "print_value"
  | .expression => "print_expr"

structure Report where
  kind : ReportKind
  source : Text
  cell : Option Ref
  text : Text
  deriving DecidableEq, Repr

def Report.line (r : Report) : Text :=
  match r.cell, r.kind with
  | some c, .expression =>
    Text.ofString "Expression in cell " ++ c.label ++ Text.ofString " is " ++ r.text
  | some c, .value => Text.ofString "Value of cell " ++ c.label ++ Text.ofString " is " ++ r.text
  | none, .expression => Text.ofString "Expression is " ++ r.text
  | none, .value => Text.ofString "Value is " ++ r.text

end Spreadsheet
