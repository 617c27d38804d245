import Spreadsheet.Cells
import Spreadsheet.Log
import Spreadsheet.Sheet.Report

/-! # Sheets

A sheet is the stored cells together with what evaluation needs: the cell that relative references
start from, the cells whose value is being computed, and a journal of what was logged and printed.
-/
namespace Spreadsheet

inductive Event where
  | logged (entry : Log.Entry)
  | printed (report : Report) (context : Option Ref)
  deriving DecidableEq, Repr

structure Sheet where
  cells : Cells := .empty
  context : Option Ref := none
  detectsCycles : Bool := false
  evaluating : List Ref := []
  /-- Newest first. -/
  journal : List Event := []

namespace Sheet

instance : Inhabited Sheet := ⟨{}⟩

def note (s : Sheet) (level : Log.Level) (message : Text) : Sheet :=
  { s with journal := .logged ⟨level, "sheetlang.calc", message⟩ :: s.journal }

def print (s : Sheet) (r : Report) : Sheet :=
  { s with journal := .printed r s.context :: s.journal }

/-- Writes a cell without a word in the journal. -/
def put (s : Sheet) (r : Ref) (c : Cell) : Sheet := { s with cells := s.cells.insert r c }

def listing (r : Ref) (c : Cell) : Text :=
  r.label ++ Text.ofString " := " ++ c.expression ++ Text.ofString " = " ++ c.value.text

def assign (s : Sheet) (r : Ref) (c : Cell) : Sheet := (s.note .debug (listing r c)).put r c

def get? (s : Sheet) (r : Ref) : Option Cell := s.cells.get? r

def clear (s : Sheet) : Sheet := { s with cells := .empty }

/-- Takes the journal out of a sheet, oldest event first. -/
def takeJournal (s : Sheet) : List Event × Sheet := (s.journal.reverse, { s with journal := [] })

end Sheet
end Spreadsheet
