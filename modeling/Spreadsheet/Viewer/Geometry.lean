import Spreadsheet.Viewer

/-! # Geometry

Which rows and columns fit on a screen, and where. Columns stand side by side from the left gutter
on; a view that starts before the first column is a fault as soon as a column is looked up.
-/
namespace Spreadsheet.Viewer

/-- How many of the given widths fit into `room` together, after `used` columns of it. -/
def fitting (room used : Int64) : List Int64 → Nat
  | [] => 0
  | w :: ws => if room < used + w then 0 else fitting room (used + w) ws + 1

/-- How many rows and columns fit from the corner of the view; at least one of each. -/
def capacity (v : Viewer) (width height : Int64) : Except IndexFault (Int64 × Int64) :=
  let room := max 1 (width - v.layout.gutter)
  let rows := max 1 (height - v.layout.statusLines - 1)
  if v.corner.col < 0 then .error ⟨v.corner.col, v.widths.size⟩
  else
    let cols := fitting room 0 (v.widths.toList.drop v.corner.col.toInt.toNat)
    .ok (rows, max 1 (Int64.ofNat cols))

/-- Moves one coordinate of the view as little as needed to show the cursor. -/
def follow (view cur shown : Int64) : Int64 :=
  if cur < view then cur else if view + shown ≤ cur then cur - shown + 1 else view

def scrollToCursor (v : Viewer) (width height : Int64) : Except IndexFault Viewer := do
  let (rows, cols) ← v.capacity width height
  let col := follow v.corner.col v.cursor.col cols
  let row := follow v.corner.row v.cursor.row rows
  return { v with corner := {
    row := min (max 0 row) (max 0 (v.rows - 1))
    col := min (max 0 col) (max 0 (v.columnCount - 1)) } }

structure Slot where
  col : Int64
  x : Int64
  width : Int64
  deriving DecidableEq, Repr

/-- Places columns from `x` on, as long as they start left of `limit`. -/
def place (limit x col : Int64) : List Int64 → List Slot
  | [] => []
  | w :: ws => if x < limit then ⟨col, x, w⟩ :: place limit (x + w) (col + 1) ws else []

def slots (v : Viewer) (width : Int64) : Except IndexFault (List Slot) :=
  if v.corner.col < 0 then
    if v.layout.gutter < width then .error ⟨v.corner.col, v.widths.size⟩ else .ok []
  else
    .ok (place width v.layout.gutter v.corner.col (v.widths.toList.drop v.corner.col.toInt.toNat))

def shownRows (v : Viewer) (height : Int64) : Nat :=
  min (v.rows.toInt - v.corner.row.toInt).toNat ((height - v.layout.statusLines).toInt - 1).toNat

end Spreadsheet.Viewer
