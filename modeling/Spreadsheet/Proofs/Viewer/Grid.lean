import Spreadsheet.Viewer.Control
import Spreadsheet.Proofs.Cells

/-! # The grid of a viewer

The cursor stands on a row and a column of the grid, every stored cell has a row and a column too,
and no column is too narrow. Every movement keeps this, as long as rows, columns and widths stay so
far from the ends of their 64-bit words that nothing wraps.
-/
namespace Spreadsheet

namespace Viewer

/-- The cursor and the cells are in the grid, columns have at least the smallest width, and the view
starts nowhere before the first row and column. -/
structure InGrid (v : Viewer) : Prop where
  row : 0 ≤ v.cursor.row.toInt ∧ v.cursor.row.toInt < v.rows.toInt
  col : 0 ≤ v.cursor.col.toInt ∧ v.cursor.col.toInt < v.widths.size
  widths : ∀ w ∈ v.widths, 4 ≤ w.toInt
  corner : 0 ≤ v.corner.row.toInt ∧ 0 ≤ v.corner.col.toInt
  cells : ∀ r ∈ v.sheet.cells.refs, r.row.toInt < v.rows.toInt ∧ r.col.toInt < v.widths.size

structure Small (v : Viewer) : Prop where
  cursor : v.cursor.row.toInt < 2 ^ 62 ∧ v.cursor.col.toInt < 2 ^ 62
  corner : v.corner.row.toInt < 2 ^ 62 ∧ v.corner.col.toInt < 2 ^ 62
  cells : ∀ r ∈ v.sheet.cells.refs, r.row.toInt < 2 ^ 62 ∧ r.col.toInt < 2 ^ 62
  widths : ∀ w ∈ v.widths, w.toInt < 2 ^ 62

/-- A viewer in its grid whose grid can be kept: new columns are wide enough, and statements end. -/
structure Sound (v : Viewer) : Prop extends v.InGrid where
  columnWidth : 4 ≤ v.layout.columnWidth.toInt
  statusLines : v.layout.statusLines = 2
  detects : v.sheet.detectsCycles = true

variable {v : Viewer}

section Growth

theorem exists_reachRow (v : Viewer) (row : Int64) (hrow : row.toInt < 2 ^ 63 - 1) :
    ∃ n, v.reachRow row = { v with rows := n } ∧ v.rows.toInt ≤ n.toInt ∧
      row.toInt < n.toInt := by
  have hnext := toInt_add_one hrow
  unfold reachRow
  split
  · next h =>
    rw [Int64.le_iff_toInt_le] at h
    exact ⟨row + 1, rfl, by omega, by omega⟩
  · next h =>
    rw [Int64.le_iff_toInt_le] at h
    exact ⟨v.rows, rfl, by omega, by omega⟩

theorem exists_reachColumn (v : Viewer) (col : Int64) :
    ∃ ws, v.reachColumn col = { v with widths := ws } ∧ v.widths.size ≤ ws.size ∧
      col.toInt < ws.size ∧ ∀ w ∈ ws, w ∈ v.widths ∨ w = v.layout.columnWidth := by
  refine ⟨_, rfl, ?_, ?_, fun w hw => ?_⟩
  · rw [Array.size_append]
    omega
  · rw [Array.size_append, Array.size_replicate]
    omega
  · rcases Array.mem_append.mp hw with hw | hw
    · exact .inl hw
    · exact .inr (Array.eq_of_mem_replicate hw)

theorem sheet_reachRow (v : Viewer) (row : Int64) : (v.reachRow row).sheet = v.sheet := by
  unfold reachRow
  split
  · rfl
  · rfl

@[simp]
theorem sheet_coverSheet (v : Viewer) : v.coverSheet.sheet = v.sheet := v.sheet_reachRow _

@[simp]
theorem sheet_ofSheet (sheet : Sheet) (columnWidth : Int64) (showsExpressions : Bool) :
    (ofSheet sheet columnWidth showsExpressions).sheet = sheet :=
  (sheet_coverSheet _).trans (sheet_reachRow _ 19)

/-- New columns are wide enough. -/
theorem Sound.widths_of_reach (h : v.Sound) {ws : Array Int64}
    (hws : ∀ w ∈ ws, w ∈ v.widths ∨ w = v.layout.columnWidth) : ∀ w ∈ ws, 4 ≤ w.toInt := by
  intro w hw
  rcases hws w hw with hold | rfl
  · exact h.widths w hold
  · exact h.columnWidth

/-- Whatever cells another sheet has, they are in the grid once it covers them. -/
theorem Sound.coverSheet (h : v.Sound) {sheet : Sheet} (hon : sheet.detectsCycles = true)
    (hcells : ∀ r ∈ sheet.cells.refs, r.row.toInt < 2 ^ 62) (message : Text) :
    (Viewer.coverSheet { v with sheet, message }).Sound := by
  have hextent : sheet.cells.extent.1.toInt < 2 ^ 62 :=
    Cells.extent_row_lt_iff.mpr ⟨by omega, hcells⟩
  obtain ⟨n, hn, hle, hrow⟩ :=
    exists_reachRow { v with sheet, message } sheet.cells.extent.1 (by omega)
  obtain ⟨ws, hws, hsize, hcol, hnew⟩ :=
    exists_reachColumn { v with sheet, message, rows := n } sheet.cells.extent.2
  have hcover : Viewer.coverSheet { v with sheet, message } =
      { v with sheet, message, rows := n, widths := ws } := by
    rw [← hws, ← hn]
    rfl
  change v.widths.size ≤ ws.size at hsize
  have hcursor := h.col
  have hkeep : v.cursor.col.toInt < ws.size := by omega
  rw [hcover]
  exact { h with
    row := ⟨h.row.1, h.row.2.trans_le hle⟩
    col := ⟨hcursor.1, hkeep⟩
    widths := h.widths_of_reach hnew
    cells := fun r hr => ⟨(Cells.extent_row_lt_iff.mp hrow).2 r hr,
      (Cells.extent_col_lt_iff.mp hcol).2 r hr⟩
    detects := hon }

/-- A width that is given for new columns is taken if it is large enough. -/
theorem four_le_columnWidth (w : Int64) :
    4 ≤ (if w < minimumWidth then (12 : Int64) else w).toInt := by
  split
  · decide
  · next h =>
    rw [Int64.lt_iff_toInt_lt] at h
    have hminimum : minimumWidth.toInt = 4 := rfl
    omega

theorem sound_ofSheet {sheet : Sheet} (hon : sheet.detectsCycles = true)
    (hcells : ∀ r ∈ sheet.cells.refs, r.row.toInt < 2 ^ 62) (columnWidth : Int64)
    (showsExpressions : Bool) : (ofSheet sheet columnWidth showsExpressions).Sound := by
  generalize hwidth : (if columnWidth < minimumWidth then (12 : Int64) else columnWidth) = w
  have hw : 4 ≤ w.toInt := hwidth ▸ four_le_columnWidth columnWidth
  let blank : Viewer := { sheet, layout := { columnWidth := w }, showsExpressions }
  obtain ⟨ws, hws, -, hsize, hnew⟩ := exists_reachColumn blank 7
  obtain ⟨n, hn, -, hrows⟩ := exists_reachRow { blank with widths := ws } 19 (by decide)
  have hstart : ofSheet sheet columnWidth showsExpressions =
      Viewer.coverSheet { blank with widths := ws, rows := n } := by
    rw [← hn, ← hws, ofSheet, hwidth]
  -- The cells of the sheet may not be in the grid yet, so the sheet is left out at first.
  have hblank : Sound { blank with sheet := { detectsCycles := true }, widths := ws, rows := n } := {
    row := ⟨le_rfl, lt_trans (a := 0) (by decide) hrows⟩
    col := ⟨le_rfl, lt_trans (a := 0) (by decide) hsize⟩
    widths := fun x hx => by
      rcases hnew x hx with hold | rfl
      · exact absurd hold (Array.not_mem_empty x)
      · exact hw
    corner := ⟨le_rfl, le_rfl⟩
    cells := fun r hr => absurd hr List.not_mem_nil
    columnWidth := hw
    statusLines := rfl
    detects := rfl }
  rw [hstart]
  exact hblank.coverSheet hon hcells []

end Growth

section Movements

variable (h : v.Sound)

include h

theorem Sound.moveTo {r : Ref} (hrow : 0 ≤ r.row.toInt ∧ r.row.toInt < v.rows.toInt)
    (hcol : 0 ≤ r.col.toInt ∧ r.col.toInt < v.widths.size) : (v.moveTo r).Sound :=
  { h with row := hrow, col := hcol }

theorem Sound.home : (v.moveTo ⟨0, 0⟩).Sound := by
  have hrow := h.row
  have hcol := h.col
  refine h.moveTo ?_ ?_
  · rw [Int64.toInt_zero]
    omega
  · rw [Int64.toInt_zero]
    omega

theorem Sound.moveUp : v.moveUp.Sound := by
  unfold Viewer.moveUp
  split
  · next hpos =>
    rw [Int64.lt_iff_toInt_lt, Int64.toInt_zero] at hpos
    have hrow := h.row
    have hup : (v.cursor.row - 1).toInt = v.cursor.row.toInt - 1 := toInt_sub_one (by omega)
    exact h.moveTo (by rw [hup]; omega) h.col
  · exact h

theorem Sound.moveLeft : v.moveLeft.Sound := by
  unfold Viewer.moveLeft
  split
  · next hpos =>
    rw [Int64.lt_iff_toInt_lt, Int64.toInt_zero] at hpos
    have hcol := h.col
    have hleft : (v.cursor.col - 1).toInt = v.cursor.col.toInt - 1 := toInt_sub_one (by omega)
    exact h.moveTo h.row (by rw [hleft]; omega)
  · exact h

/-- The last row and column in use have a place in the grid, and so do the first ones. -/
theorem Sound.moveToEnd : v.moveToEnd.Sound := by
  have hrow := h.row
  have hcol := h.col
  have hlastRow : v.sheet.cells.extent.1.toInt < v.rows.toInt :=
    Cells.extent_row_lt_iff.mpr ⟨by omega, fun r hr => (h.cells r hr).1⟩
  have hlastCol : v.sheet.cells.extent.2.toInt < v.widths.size :=
    Cells.extent_col_lt_iff.mpr ⟨by omega, fun r hr => (h.cells r hr).2⟩
  change (v.moveTo ⟨max 0 v.sheet.cells.extent.1, max 0 v.sheet.cells.extent.2⟩).Sound
  refine h.moveTo ?_ ?_
  · rw [toInt_max, Int64.toInt_zero]
    omega
  · rw [toInt_max, Int64.toInt_zero]
    omega

theorem Sound.moveDown (hsmall : v.Small) : v.moveDown.Sound := by
  have hrow := h.row
  have hcursor := hsmall.cursor.1
  have hdown : (v.cursor.row + 1).toInt = v.cursor.row.toInt + 1 := toInt_add_one (by omega)
  obtain ⟨n, hn, hle, hlt⟩ := exists_reachRow (v.moveTo ⟨v.cursor.row + 1, v.cursor.col⟩)
    (v.cursor.row + 1) (by omega)
  rw [Viewer.moveDown, hn]
  exact { h with
    row := ⟨by change 0 ≤ (v.cursor.row + 1).toInt; omega, hlt⟩
    cells := fun r hr => ⟨(h.cells r hr).1.trans_le hle, (h.cells r hr).2⟩ }

theorem Sound.moveRight (hsmall : v.Small) : v.moveRight.Sound := by
  have hcol := h.col
  have hcursor := hsmall.cursor.2
  have hright : (v.cursor.col + 1).toInt = v.cursor.col.toInt + 1 := toInt_add_one (by omega)
  obtain ⟨ws, hws, hsize, hlt, hnew⟩ :=
    exists_reachColumn (v.moveTo ⟨v.cursor.row, v.cursor.col + 1⟩) (v.cursor.col + 1)
  change v.widths.size ≤ ws.size at hsize
  rw [Viewer.moveRight, hws]
  exact { h with
    col := ⟨by change 0 ≤ (v.cursor.col + 1).toInt; omega, hlt⟩
    widths := h.widths_of_reach hnew
    cells := fun r hr => ⟨(h.cells r hr).1, by
      have := (h.cells r hr).2
      change r.col.toInt < (ws.size : Int)
      omega⟩ }

theorem Sound.pageUp {rows : Int64} (hpos : 1 ≤ rows.toInt) (hrows : rows.toInt ≤ 2 ^ 31) :
    (v.pageUp rows).Sound := by
  have hrow := h.row
  have hcorner := h.corner
  have hcursor : (v.cursor.row - rows).toInt = v.cursor.row.toInt - rows.toInt := by
    have := v.cursor.row.toInt_lt
    exact toInt_sub_eq (by omega) (by omega)
  have hup : (max 0 (v.cursor.row - rows)).toInt = max 0 (v.cursor.row.toInt - rows.toInt) := by
    rw [toInt_max, Int64.toInt_zero, hcursor]
  have hview : 0 ≤ (max 0 (v.corner.row - rows)).toInt := by
    rw [toInt_max, Int64.toInt_zero]
    omega
  exact { h with
    row := by
      change 0 ≤ (max 0 (v.cursor.row - rows)).toInt ∧
        (max 0 (v.cursor.row - rows)).toInt < v.rows.toInt
      omega
    corner := ⟨hview, hcorner.2⟩ }

theorem Sound.pageDown (hsmall : v.Small) {rows : Int64} (hpos : 1 ≤ rows.toInt)
    (hrows : rows.toInt ≤ 2 ^ 31) : (v.pageDown rows).Sound := by
  have hrow := h.row
  have hcorner := h.corner
  have hcursorSmall := hsmall.cursor
  have hcornerSmall := hsmall.corner
  have hdown : (v.cursor.row + rows).toInt = v.cursor.row.toInt + rows.toInt :=
    toInt_add_eq (by omega) (by omega)
  have hview : (v.corner.row + rows).toInt = v.corner.row.toInt + rows.toInt :=
    toInt_add_eq (by omega) (by omega)
  obtain ⟨n, hn, hle, hlt⟩ := exists_reachRow { v with
    corner := ⟨v.corner.row + rows, v.corner.col⟩
    cursor := ⟨v.cursor.row + rows, v.cursor.col⟩ } (v.cursor.row + rows) (by omega)
  rw [Viewer.pageDown, hn]
  exact { h with
    row := ⟨by change 0 ≤ (v.cursor.row + rows).toInt; omega, hlt⟩
    corner := ⟨by change 0 ≤ (v.corner.row + rows).toInt; omega, hcorner.2⟩
    cells := fun r hr => ⟨(h.cells r hr).1.trans_le hle, (h.cells r hr).2⟩ }

theorem Sound.exists_currentWidth : ∃ w ∈ v.widths, v.currentWidth = .ok w := by
  have hcol := h.col
  have hlt : v.cursor.col.toInt.toNat < v.widths.size := by omega
  refine ⟨v.widths[v.cursor.col.toInt.toNat], Array.getElem_mem hlt, ?_⟩
  simp only [currentWidth, if_neg (not_neg_of_toInt hcol.1), Array.getElem?_eq_getElem hlt]

theorem Sound.setCurrentWidth {w : Int64} (hw : 4 ≤ w.toInt) : (v.setCurrentWidth w).Sound := by
  have hsize : (v.widths.setIfInBounds v.cursor.col.toInt.toNat w).size = v.widths.size :=
    Array.size_setIfInBounds
  exact { h with
    col := ⟨h.col.1, by rw [Viewer.setCurrentWidth, hsize]; exact h.col.2⟩
    widths := fun x hx => by
      rcases Array.mem_or_eq_of_mem_setIfInBounds hx with hold | rfl
      · exact h.widths x hold
      · exact hw
    cells := fun r hr => ⟨(h.cells r hr).1, by
      rw [Viewer.setCurrentWidth, hsize]
      exact (h.cells r hr).2⟩ }

theorem Sound.narrow : ∃ v', v.narrow = .ok v' ∧ v'.Sound := by
  obtain ⟨w, hmem, hw⟩ := h.exists_currentWidth
  refine ⟨_, by rw [Viewer.narrow, hw]; rfl, ?_⟩
  split
  · next hlt =>
    rw [Int64.lt_iff_toInt_lt] at hlt
    have hminimum : minimumWidth.toInt = 4 := rfl
    have hless : (w - 1).toInt = w.toInt - 1 := toInt_sub_one (by omega)
    exact h.setCurrentWidth (by omega)
  · exact h

theorem Sound.widen (hsmall : v.Small) : ∃ v', v.widen = .ok v' ∧ v'.Sound := by
  obtain ⟨w, hmem, hw⟩ := h.exists_currentWidth
  refine ⟨v.setCurrentWidth (w + 1), by rw [Viewer.widen, hw]; rfl, h.setCurrentWidth ?_⟩
  have hleast := h.widths w hmem
  have hmost := hsmall.widths w hmem
  rw [toInt_add_one (by omega)]
  omega

/-- The number of rows that a screen shows is known wherever the view starts in the grid. -/
theorem Sound.exists_capacity (width : Int64) {height : Int64} (hheight : 0 ≤ height.toInt)
    (hlimit : height.toInt ≤ 2 ^ 31) : ∃ rows cols, v.capacity width height = .ok (rows, cols) ∧
      1 ≤ rows.toInt ∧ rows.toInt ≤ 2 ^ 31 := by
  refine ⟨_, _, by rw [capacity, if_neg (not_neg_of_toInt h.corner.2)], ?_⟩
  rw [h.statusLines, toInt_max, Int64.toInt_one]
  have htwo : (2 : Int64).toInt = 2 := rfl
  have hfirst : (height - 2).toInt = height.toInt - 2 := by
    rw [toInt_sub_eq] <;> rw [htwo] <;> omega
  have hsecond : (height - 2 - 1).toInt = height.toInt - 3 := by
    rw [toInt_sub_one (by omega), hfirst]
    omega
  omega

/-- Scrolling moves the view alone, and into the grid. -/
theorem Sound.scrollToCursor (width : Int64) {height : Int64} (hheight : 0 ≤ height.toInt)
    (hlimit : height.toInt ≤ 2 ^ 31) : ∃ v', v.scrollToCursor width height = .ok v' ∧ v'.Sound := by
  obtain ⟨rows, cols, hcapacity, -⟩ := h.exists_capacity width hheight hlimit
  refine ⟨_, by rw [Viewer.scrollToCursor, hcapacity]; rfl, ?_⟩
  have hclamped (a b : Int64) : 0 ≤ (min (max 0 a) (max 0 b)).toInt := by
    rw [toInt_min, toInt_max, toInt_max, Int64.toInt_zero]
    omega
  exact { h with corner := ⟨hclamped _ _, hclamped _ _⟩ }

theorem Sound.exists_slots (width : Int64) : ∃ slots, v.slots width = .ok slots :=
  ⟨_, by rw [slots, if_neg (not_neg_of_toInt h.corner.2)]⟩

end Movements

end Viewer
end Spreadsheet
