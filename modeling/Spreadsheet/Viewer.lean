import Spreadsheet.Sheet.Program

/-! # The viewer

A view of a sheet: a grid of rows and columns with a cursor, and the part of it that is shown.
Coordinates are 64-bit words like those of cells.
-/
namespace Spreadsheet

/-- The measures of a view, in characters: the gutter with the row numbers, the lines below the
grid, the blank on each side of a cell, and the width of a new column. -/
structure Layout where
  gutter : Int64 := 5
  statusLines : Int64 := 2
  padding : Int64 := 1
  columnWidth : Int64

structure Viewer where
  sheet : Sheet
  layout : Layout
  /-- The width of each column of the grid. -/
  widths : Array Int64 := #[]
  rows : Int64 := 0
  cursor : Ref := ⟨0, 0⟩
  /-- The cell in the upper left corner of the part shown. -/
  corner : Ref := ⟨0, 0⟩
  showsExpressions : Bool
  showsHelp : Bool := false
  message : Text := []
  isDone : Bool := false

/-- An access outside of the columns of a viewer. -/
structure IndexFault where
  index : Int64
  length : Nat
  deriving DecidableEq, Repr

def IndexFault.message (f : IndexFault) : Text :=
  Text.ofString "runtime error: index out of range [" ++ Decimal.ofInt64 f.index
    ++ (if f.index < 0 then Text.ofString "]"
      else Text.ofString "] with length " ++ Decimal.ofNat f.length)

namespace Viewer

def minimumWidth : Int64 := 4

def columnCount (v : Viewer) : Int64 := Int64.ofNat v.widths.size

def reachColumn (v : Viewer) (col : Int64) : Viewer :=
  let missing := (col.toInt + 1 - v.widths.size).toNat
  { v with widths := v.widths ++ Array.replicate missing v.layout.columnWidth }

def reachRow (v : Viewer) (row : Int64) : Viewer :=
  if v.rows ≤ row then { v with rows := row + 1 } else v

/-- Grows the grid so that every stored cell has a row and a column. -/
def coverSheet (v : Viewer) : Viewer :=
  let (row, col) := v.sheet.cells.extent
  (v.reachRow row).reachColumn col

/-- A viewer of eight columns and twenty rows, or more if the sheet needs them. -/
def ofSheet (sheet : Sheet) (columnWidth : Int64) (showsExpressions : Bool) : Viewer :=
  let v : Viewer := {
    sheet
    layout := { columnWidth := if columnWidth < minimumWidth then 12 else columnWidth }
    showsExpressions }
  ((v.reachColumn 7).reachRow 19).coverSheet

def compute (v : Viewer) (r : Ref) : Option (Cell × Viewer) :=
  (Sheet.compute r v.sheet).map fun (c, sheet) => (c, { v with sheet })

def storedExpression (v : Viewer) (r : Ref) : Text := ((v.sheet.get? r).getD {}).expression

/-- The text shown for a cell: its fresh value, or its expression. -/
def shownText (r : Ref) : Computation Viewer Text := fun v =>
  if v.showsExpressions then some (v.storedExpression r, v)
  else (v.compute r).map fun (c, v) => (c.value.text, v)

def modeName (v : Viewer) : Text :=
  Text.ofString (if v.showsExpressions then "expressions" else "values")

def statusText : Computation Viewer Text := fun v =>
  let r := v.cursor
  let head := r.label ++ Text.ofString " (" ++ r.relativeLabel ++ Text.ofString ")  "
  let mode := Text.ofString "[" ++ v.modeName ++ Text.ofString "]"
  match v.sheet.get? r with
  | none => some (head ++ mode, v)
  | some stored =>
    (v.compute r).map fun (c, v) =>
      (head ++ Text.ofString ":= " ++ stored.expression ++ Text.ofString "  = " ++ c.value.text
        ++ Text.ofString "  " ++ mode, v)

def assignmentText (v : Viewer) (r : Ref) : Text :=
  r.label ++ Text.ofString " := " ++ v.storedExpression r

def reportLines : List Event → List Text
  | [] => []
  | .printed r _ :: events => r.line :: reportLines events
  | .logged _ :: events => reportLines events

def isLogged : Event → Bool
  | .logged _ => true
  | .printed _ _ => false

def leftover (src rest : Text) : List Event :=
  if rest.isEmpty then []
  else
    [.logged ⟨.info, "sheetlang.app", Text.ofString "statement " ++ Quoted.quote src
      ++ Text.ofString " left " ++ Quoted.quote rest⟩]

/-- Runs a statement. Its reports, or what could not be parsed, become the message. -/
def runStatement (src : Text) : Computation Viewer Unit := fun v =>
  (Sheet.execute src { v.sheet with journal := [] }).map fun (outcome, sheet) =>
    let rest := outcome.rest.trim
    let message :=
      if rest.isEmpty then Text.joinWith (Text.ofString "; ") (reportLines sheet.journal.reverse)
      else Text.ofString "Parsing left remainder [" ++ rest ++ Text.ofString "]."
    let journal := leftover src rest ++ sheet.journal.filter isLogged ++ v.sheet.journal
    let sheet := { sheet with journal }
    ((), { v with sheet, message }.coverSheet)

end Viewer
end Spreadsheet
