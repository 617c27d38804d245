import Spreadsheet.Viewer.Session
import Spreadsheet.Viewer.Wrap

/-! # Drawing

Column names stand in the first line and row numbers in the gutter; the last lines are the status
line and the message. Cells are computed as they are drawn.
-/
namespace Spreadsheet.Viewer

def labelStyle : Style := { foreground := .yellow }

def selectedLabelStyle : Style := { foreground := .black, background := .yellow }

def selectedCellStyle : Style := { foreground := .black, background := .lightGray }

def statusStyle : Style := { foreground := .white, background := .gray }

def helpStyle : Style := { foreground := .white }

def helpNotes : Text := Text.ofString <| "\n arrows - move \n Ctrl←/Ctrl→ - col width \n"
  ++ " PgUp/PgDn/Home/End - scroll \n e - values/expressions \n : - run statements \n"
  ++ " ? - this help \n q / Ctrl+C - quit \n "

/-- Fills a slot in some line and writes a text in it, inside the padding. -/
def drawSlot (v : Viewer) (slot : Slot) (y : Int64) (t : Text) (style : Style) (c : Canvas) : Canvas :=
  let c := c.write slot.x y [] style slot.width
  c.write (slot.x + v.layout.padding) y t style (max 0 (slot.width - 2 * v.layout.padding))

def drawHeader (v : Viewer) (slots : List Slot) (c : Canvas) : Canvas :=
  slots.foldl (fun c slot =>
    let style := if slot.col = v.cursor.col then selectedLabelStyle else labelStyle
    v.drawSlot slot 0 (Column.label slot.col) style c) c

def drawCells (row y : Int64) : List Slot → Canvas → Computation Viewer Canvas
  | [], c => pure c
  | slot :: slots, c => do
    let t ← shownText ⟨row, slot.col⟩
    let v ← get
    let style : Style := if (⟨row, slot.col⟩ : Ref) = v.cursor then selectedCellStyle else {}
    drawCells row y slots (v.drawSlot slot y t style c)

def drawRows (slots : List Slot) (row y : Int64) : (count : Nat) → Canvas → Computation Viewer Canvas
  | 0, c => pure c
  | n + 1, c => do
    let v ← get
    let style := if row = v.cursor.row then selectedLabelStyle else labelStyle
    let c := c.write 0 y (Decimal.ofInt64 (row + 1)) style (v.layout.gutter - 1)
    let c ← drawCells row y slots c
    drawRows slots (row + 1) (y + 1) n c

def drawHelp (c : Canvas) : Canvas :=
  if c.width < 10 || c.height < 5 then c
  else
    let padding : Int64 := 2
    let innerWidth := min 40 (c.width - 6 - padding * 2)
    let room := (c.height - 6 - padding * 2).toInt.toNat
    let lines := (Wrap.wrap innerWidth helpNotes).take room
    let innerHeight := max 3 (Int64.ofNat lines.length)
    let width := innerWidth + padding * 2
    let height := innerHeight + padding * 2
    let left := (c.width - width) / 2
    let top := (c.height - height) / 2
    let c := c.box left top width height helpStyle
    (lines.foldl (fun (c, y) line =>
      (c.write (left + padding) y line helpStyle innerWidth, y + 1)) (c, top + padding)).1

/-- The picture of a viewer on a screen, given the columns shown on it. -/
def picture (slots : List Slot) (width height : Int64) : Computation Viewer Canvas := do
  let v ← get
  let c := v.drawHeader slots (Canvas.blank width height)
  let c ← drawRows slots v.corner.row 1 (v.shownRows height) c
  let statusY := max 0 (height - v.layout.statusLines)
  let c := c.write 0 statusY (← statusText) statusStyle width
  let c := c.write 0 (statusY + 1) v.message statusStyle width
  pure (if v.showsHelp then drawHelp c else c)

end Spreadsheet.Viewer

namespace Spreadsheet.Session

open Viewer

/-- Draws the sheet and shows it without a text cursor. -/
def paint : Interaction Canvas := do
  let t ← getTerminal
  let slots ← orFail ((← getViewer).slots t.width)
  let c ← onViewer (picture slots t.width t.height)
  present ⟨c, none⟩
  pure c

end Spreadsheet.Session
