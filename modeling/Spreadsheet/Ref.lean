import Spreadsheet.Ref.Column
import Spreadsheet.Text.Decimal

/-! # Cell references

A cell is addressed by its row and column, both counted from zero. Coordinates are 64-bit words and
may be negative: row number 0 is written in labels and denotes row -1.
-/
namespace Spreadsheet

structure Ref where
  row : Int64
  col : Int64
  deriving DecidableEq, Repr

namespace Ref

inductive Error where
  | malformed (name : Text)
  | rowOutOfRange (name digits : Text)
  | column (e : Column.Error)
  deriving DecidableEq, Repr

def Error.message : Error → Text
  | .malformed name => Text.ofString "invalid cell reference: " ++ Quoted.quote name
  | .rowOutOfRange name digits =>
    Text.ofString "invalid cell reference: " ++ Quoted.quote name
      ++ Text.ofString ": strconv.Atoi: parsing " ++ Quoted.quote digits
      ++ Text.ofString ": value out of range"
  | .column e => e.message

/-- The cell of a column label and a row number counted from one. -/
def ofLabel (label : Text) (number : Int64) : Except Column.Error Ref :=
  (Column.ofLabel label).map fun col => ⟨number - 1, col⟩

/-- Reads upper-case letters followed by digits, such as `AB12`. -/
def parse (name : Text) : Except Error Ref :=
  let letters := name.takeWhile Text.isUpper
  let digits := name.dropWhile Text.isUpper
  if letters.isEmpty || digits.isEmpty || !digits.all Text.isDigit then .error (.malformed name)
  else
    match Decimal.read digits with
    | .error _ => .error (.rowOutOfRange name digits)
    | .ok number => (ofLabel letters number).mapError .column

/-- The absolute label, such as `AA3`. -/
def label (r : Ref) : Text := Column.label r.col ++ Decimal.ofInt64 (r.row + 1)

/-- The offset of a cell from the first cell of the grid, such as `r2c26`. -/
def relativeLabel (r : Ref) : Text :=
  [Text.byte 'r'] ++ Decimal.ofInt64 r.row ++ [Text.byte 'c'] ++ Decimal.ofInt64 r.col

/-- The cell at a distance, unless it falls off the top or left edge. -/
def shift? (r : Ref) (rows cols : Int64) : Option Ref :=
  let row := r.row + rows
  let col := r.col + cols
  if row < 0 ∨ col < 0 then none else some ⟨row, col⟩

/-- Row-major order. -/
def Before (a b : Ref) : Prop := a.row < b.row ∨ a.row = b.row ∧ a.col < b.col

instance : LT Ref := ⟨Before⟩

instance (a b : Ref) : Decidable (a < b) := inferInstanceAs (Decidable (_ ∨ _))

theorem lt_def {a b : Ref} : a < b ↔ a.row < b.row ∨ a.row = b.row ∧ a.col < b.col := Iff.rfl

theorem lt_trans {a b c : Ref} (hab : a < b) (hbc : b < c) : a < c := by
  simp only [lt_def, Int64.lt_iff_toInt_lt, ← Int64.toInt_inj] at *
  omega

theorem eq_of_not_lt {a b : Ref} (hab : ¬ a < b) (hba : ¬ b < a) : a = b := by
  cases a; cases b
  simp only [lt_def, Int64.lt_iff_toInt_lt, ← Int64.toInt_inj, mk.injEq] at *
  omega

end Ref
end Spreadsheet
