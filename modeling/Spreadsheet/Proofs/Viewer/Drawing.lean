import Spreadsheet.Proofs.Viewer.Keeping
import Spreadsheet.Proofs.Viewer.Picture

/-! # What a session draws

Whatever happens to a viewer, its layout stays and its view starts at no column before the first
one. Columns get narrower or wider by one, so as long as no width wraps they keep the smallest
width, and then columns side by side do not overlap. So drawing succeeds in every session, and shows
each cell in a rectangle of its own.
-/
namespace Spreadsheet

namespace Viewer

variable {v w : Viewer}

/-- A viewer that can be drawn, with the measures that it starts with. -/
structure Drawable (v : Viewer) : Prop where
  gutter : v.layout.gutter = 5
  statusLines : v.layout.statusLines = 2
  padding : v.layout.padding = 1
  columnWidth : 4 ≤ v.layout.columnWidth.toInt
  widths : ∀ a ∈ v.widths, 4 ≤ a.toInt
  corner : 0 ≤ v.corner.col.toInt
  detects : v.sheet.detectsCycles = true

/-- No width is the largest word, so none wraps when its column gets wider by one. -/
def Narrow (v : Viewer) : Prop := ∀ a ∈ v.widths, a ≠ Int64.maxValue

namespace Drawable

theorem reachRow (h : v.Drawable) (row : Int64) : (v.reachRow row).Drawable := by
  unfold Viewer.reachRow
  split
  · exact { h with }
  · exact h

/-- New columns are wide enough. -/
theorem reachColumn (h : v.Drawable) (col : Int64) : (v.reachColumn col).Drawable := by
  obtain ⟨ws, hws, -, -, hnew⟩ := exists_reachColumn v col
  have hwidths : ∀ a ∈ ws, 4 ≤ a.toInt := by
    intro a ha
    rcases hnew a ha with hold | rfl
    · exact h.widths a hold
    · exact h.columnWidth
  rw [hws]
  exact { h with widths := hwidths }

theorem coverSheet (h : v.Drawable) : v.coverSheet.Drawable := (h.reachRow _).reachColumn _

theorem moved (h : v.Drawable) (hnarrow : v.Narrow) (hmoved : Moved v w) : w.Drawable := by
  have hwidths : ∀ a ∈ w.widths, 4 ≤ a.toInt := by
    intro a ha
    rcases hmoved.widths a ha with hold | rfl | ⟨b, hb, hlt, rfl⟩ | ⟨b, hb, rfl⟩
    · exact h.widths a hold
    · exact h.columnWidth
    · rw [Int64.lt_iff_toInt_lt, show minimumWidth.toInt = 4 by rfl] at hlt
      rw [toInt_sub_one (by omega)]
      omega
    · have hleast := h.widths b hb
      have hless := (lt_or_eq_maxValue b).resolve_right (hnarrow b hb)
      rw [toInt_add_one hless]
      omega
  have hcorner : 0 ≤ w.corner.col.toInt := by
    rcases hmoved.corner with hsame | hnonneg
    · rw [hsame]
      exact h.corner
    · exact hnonneg
  have hlayout := hmoved.layout
  exact ⟨hlayout ▸ h.gutter, hlayout ▸ h.statusLines, hlayout ▸ h.padding, hlayout ▸ h.columnWidth,
    hwidths, hcorner, hmoved.sheet ▸ h.detects⟩

/-- A statement may store cells anywhere; the grid grows to cover them. -/
theorem exists_runStatement (h : v.Drawable) (src : Text) :
    ∃ a w, runStatement src v = some (a, w) ∧ w.Drawable := by
  have hon : Sheet.detectsCycles { v.sheet with journal := [] } = true := h.detects
  obtain ⟨sheet, hexecute, hafter⟩ := Sheet.execute_eq hon src
  refine ⟨(), _, by rw [runStatement, hexecute]; rfl, coverSheet ?_⟩
  exact { h with detects := hafter.detectsCycles_eq.trans hon }

theorem exists_compute (h : v.Drawable) (hnarrow : v.Narrow) (r : Ref) :
    ∃ c w, v.compute r = some (c, w) ∧ w.Drawable ∧ w.Narrow := by
  obtain ⟨c, w, hcompute, hw⟩ :=
    Redrawn.exists_compute (⟨rfl, h.detects, .refl _⟩ : v.Redrawn v) r
  obtain ⟨sheet, rfl⟩ : ∃ sheet, w = { v with sheet } := ⟨_, hw.frame⟩
  exact ⟨c, _, hcompute, { h with detects := hw.detects }, hnarrow⟩

end Drawable

theorem drawable_ofSheet {sheet : Sheet} (hon : sheet.detectsCycles = true) (columnWidth : Int64)
    (showsExpressions : Bool) : (ofSheet sheet columnWidth showsExpressions).Drawable := by
  have hblank : Drawable {
      sheet
      layout := { columnWidth := if columnWidth < minimumWidth then 12 else columnWidth }
      showsExpressions } :=
    ⟨rfl, rfl, rfl, four_le_columnWidth columnWidth, fun a ha => absurd ha (Array.not_mem_empty a),
      le_rfl, hon⟩
  exact ((hblank.reachColumn 7).reachRow 19).coverSheet

end Viewer

namespace Session

open Viewer

/-- The sessions that commands lead to, as long as no width wraps. A command that fails leads to
where it left the session. -/
inductive Visited (start : Session) : Session → Prop
  | start : Visited start start
  | next {s t : Session} {c : Command} {result : Except IndexFault Unit} (h : Visited start s)
      (hnarrow : s.viewer.Narrow) (hstep : c.perform.run s = some (result, t)) : Visited start t

theorem Visited.drawable {start s : Session} (h : Visited start s)
    (hstart : start.viewer.Drawable) : s.viewer.Drawable := by
  induction h with
  | start => exact hstart
  | @next s t c result h hnarrow hstep ih =>
    have hends : Ends (fun v => v.Drawable ∧ v.Narrow) Drawable c.perform :=
      ends_perform (fun hv => hv.1.exists_compute hv.2) (fun hmoved hv => hv.1.moved hv.2 hmoved)
        (fun src _ hv => hv.1.exists_runStatement src) c
    obtain ⟨_, t', hrun, ht'⟩ := hends s ⟨ih, hnarrow⟩
    obtain ⟨-, rfl⟩ := Prod.mk.inj (Option.some.inj (hrun.symm.trans hstep))
    exact ht'

end Session

namespace Viewer

variable {v : Viewer}

/-- Where a column starts on the screen: right of the gutter and of the columns shown before it. -/
def columnStart (v : Viewer) (col : Nat) : Int :=
  5 + (((v.widths.toList.take col).drop v.corner.col.toInt.toNat).map Int64.toInt).sum

section Geometry

variable (h : v.Drawable) (hwidths : ∀ a ∈ v.widths, a.toInt < 2 ^ 31) (width : Int64)

include h

theorem Drawable.slots_eq : v.slots width =
    .ok (place width 5 v.corner.col (v.widths.toList.drop v.corner.col.toInt.toNat)) := by
  rw [slots, if_neg (not_neg_of_toInt h.corner), h.gutter]

include hwidths

theorem Drawable.bounds_of_mem {n : Nat} :
    ∀ a ∈ v.widths.toList.drop n, 0 ≤ a.toInt ∧ a.toInt < 2 ^ 31 := by
  intro a ha
  have hmem : a ∈ v.widths := Array.mem_toList_iff.mp (List.mem_of_mem_drop ha)
  have hleast := h.widths a hmem
  exact ⟨by omega, hwidths a hmem⟩

theorem Drawable.room {width : Int64} {n : Nat}
    (hroom : width.toInt + 2 ^ 31 ≤ 2 ^ 63 ∨ (v.widths.size : Int) < 2 ^ 32) :
    Room width 5 (v.widths.toList.drop n) := by
  rcases hroom with hlimit | hsize
  · exact .inl hlimit
  · refine room_of_length (h.bounds_of_mem hwidths) (by decide) ?_
    rw [List.length_drop, Array.length_toList]
    omega

/-- Each column that starts on the screen has a slot. -/
theorem Drawable.exists_slot {col : Nat} {a : Int64} (hcol : v.corner.col.toInt ≤ col)
    (ha : v.widths[col]? = some a) (hstart : v.columnStart col < width.toInt) :
    ∃ slot ∈ place width 5 v.corner.col (v.widths.toList.drop v.corner.col.toInt.toNat),
      slot.col = Int64.ofNat col ∧ slot.width = a ∧ slot.x.toInt = v.columnStart col := by
  have hcorner := h.corner
  have hindex : v.corner.col.toInt.toNat + (col - v.corner.col.toInt.toNat) = col := by omega
  have hget : (v.widths.toList.drop v.corner.col.toInt.toNat)[col - v.corner.col.toInt.toNat]? =
      some a := by
    rw [List.getElem?_drop, hindex, Array.getElem?_toList, ha]
  have hfive : (5 : Int64).toInt = 5 := rfl
  rw [columnStart, List.drop_take, ← hfive] at hstart
  obtain ⟨slot, hslot, hslotCol, hwidth, hx⟩ :=
    Viewer.exists_slot (h.bounds_of_mem hwidths) hget hstart
  refine ⟨slot, hslot, ?_, hwidth, ?_⟩
  · have hword : 0 + Int64.ofNat v.corner.col.toInt.toNat = v.corner.col :=
      add_ofNat_eq (by rw [Int64.toInt_zero]; omega)
    rw [Int64.zero_add] at hword
    calc slot.col = v.corner.col + Int64.ofNat (col - v.corner.col.toInt.toNat) := hslotCol
      _ = Int64.ofNat (v.corner.col.toInt.toNat + (col - v.corner.col.toInt.toNat)) := by
        rw [Int64.ofNat_add, hword]
      _ = Int64.ofNat col := by rw [hindex]
  · rw [hx, columnStart, List.drop_take, hfive]

end Geometry

/-- A row that is shown, as a number of lines below the first one. -/
theorem exists_shownRow {height row : Int64} (hstatus : v.layout.statusLines = 2)
    (hheight : 3 ≤ height.toInt) (hfirst : v.corner.row.toInt ≤ row.toInt)
    (hrows : row.toInt < v.rows.toInt)
    (hlast : row.toInt < v.corner.row.toInt + (height.toInt - 3)) :
    ∃ k < v.shownRows height, row = v.corner.row + Int64.ofNat k ∧
      (k : Int) = row.toInt - v.corner.row.toInt := by
  refine ⟨(row.toInt - v.corner.row.toInt).toNat, ?_, (add_ofNat_eq (by omega)).symm, by omega⟩
  rw [shownRows, toInt_sub_statusLines hstatus hheight]
  omega

end Viewer

namespace Session

open Viewer

/-- The screen of a session shows every cell of the visible part of the grid in a rectangle of its
own, in which the text of the cell stands between two blanks. The text is the one that the cell had
before anything was drawn. The last two lines are the status line and the message. Drawing changes
nothing of the viewer but what its sheet caches and logs. The screen may have any width, unless
there are at least `2 ^ 32` columns: on a screen that ends with the largest words those may go
around, and then cover the first ones. -/
theorem Visited.paint_shows {sheet : Sheet} (hon : sheet.detectsCycles = true) (columnWidth : Int64)
    (showsExpressions : Bool) {terminal : Terminal} {s : Session}
    (h : Visited ⟨.ofSheet sheet columnWidth showsExpressions, terminal⟩ s)
    (hhelp : s.viewer.showsHelp = false) (hwidths : ∀ a ∈ s.viewer.widths, a.toInt < 2 ^ 31)
    (hheight : 3 ≤ s.terminal.height.toInt)
    (hroom : s.terminal.width.toInt + 2 ^ 31 ≤ 2 ^ 63 ∨ (s.viewer.widths.size : Int) < 2 ^ 32) :
    ∃ c v, paint.run s =
        some (.ok c, ⟨v, { s.terminal with frames := ⟨c, none⟩ :: s.terminal.frames }⟩) ∧
      c.width = s.terminal.width ∧ c.height = s.terminal.height ∧
      (∀ (row : Int64) (col : Nat) (a : Int64), s.viewer.corner.row.toInt ≤ row.toInt →
        row.toInt < s.viewer.rows.toInt →
        row.toInt < s.viewer.corner.row.toInt + (s.terminal.height.toInt - 3) →
        s.viewer.corner.col.toInt ≤ col → s.viewer.widths[col]? = some a →
        s.viewer.columnStart col < s.terminal.width.toInt →
        ∃ t, s.viewer.ShowsText ⟨row, Int64.ofNat col⟩ t ∧
          ∀ (i : Nat) (px py : Int64), (i : Int) < a.toInt → c.contains px py = true →
            px.toInt = s.viewer.columnStart col + i →
            py.toInt = 1 + (row.toInt - s.viewer.corner.row.toInt) →
            (c.get px py).1 = slotChar a t i) ∧
      (∃ t, s.viewer.ShowsStatus t ∧ ∀ px py, c.contains px py = true →
        py.toInt = s.terminal.height.toInt - 2 → (c.get px py).1 = t.chars.getD px.toInt.toNat ' ') ∧
      (∀ px py, c.contains px py = true → py.toInt = s.terminal.height.toInt - 1 →
        (c.get px py).1 = s.viewer.message.chars.getD px.toInt.toNat ' ') ∧
      v = { s.viewer with sheet := v.sheet } ∧
      ∀ r, (v.sheet.get? r).map (·.expression) = (s.viewer.sheet.get? r).map (·.expression) := by
  have hdraw := h.drawable (drawable_ofSheet hon columnWidth showsExpressions)
  have hbounds := hdraw.bounds_of_mem hwidths (n := s.viewer.corner.col.toInt.toNat)
  have hslots := hdraw.slots_eq s.terminal.width
  have hplaced := hdraw.room hwidths hroom (n := s.viewer.corner.col.toInt.toNat)
  obtain ⟨c, v, hpicture, hv, hdepicts⟩ := reads_picture hdraw.detects hdraw.padding
    hdraw.statusLines hhelp (fun slot hslot => (fits_place hbounds hplaced hslot).2)
    (pairwise_place hbounds hplaced) hheight s.viewer (.refl hdraw.detects)
  have hsize := ensures_picture _ _ _ _ _ _ hpicture
  have hh : c.height = s.terminal.height := hsize.height
  refine ⟨c, v, paint_eq hslots hpicture, hsize.width, hh, ?_, ?_, ?_, hv.frame,
    fun r => hv.sources.expression_eq r⟩
  · intro row col a hfirst hrows hlast hcol ha hstart
    obtain ⟨slot, hslot, hslotCol, rfl, hx⟩ := hdraw.exists_slot hwidths _ hcol ha hstart
    obtain ⟨k, hk, rfl, hline⟩ := exists_shownRow hdraw.statusLines hheight hfirst hrows hlast
    obtain ⟨t, ht, hcell⟩ := hdepicts.cells k (hh ▸ hk) slot hslot
    refine ⟨t, hslotCol ▸ ht, fun i px py hi hp hpx hpy => ?_⟩
    have hindex : (px.toInt - slot.x.toInt).toNat = i := by omega
    have hcover : slot.Covers px := ⟨by omega, by omega⟩
    rw [hcell px py hp (by omega) hcover, hindex]
  · rw [← hh]
    exact hdepicts.status
  · rw [← hh]
    exact hdepicts.message

/-- A terminal at which a product gets assigned to `B1`. -/
def multiplying : Terminal where
  width := 24
  height := 5
  pending := .key ⟨.ctrlU, true⟩ :: "B1 := 6*7".toList.map (fun c => .key (.typed c)) ++
    [.key ⟨.enter, false⟩]

/-- Only the start of the second column is on the screen; the product stands there after a blank. -/
theorem Visited.paint_shows_product : ∃ s,
    Visited ⟨.ofSheet { detectsCycles := true } 12 false, multiplying⟩ s ∧
    s.viewer.columnStart 1 = 17 ∧ s.terminal.width = 24 ∧ s.viewer.showsHelp = false ∧
    (∀ a ∈ s.viewer.widths, a.toInt < 2 ^ 31) ∧
    ∃ c v, paint.run s =
        some (.ok c, ⟨v, { s.terminal with frames := ⟨c, none⟩ :: s.terminal.frames }⟩) ∧
      (c.get 17 1).1 = ' ' ∧ (c.get 18 1).1 = '4' ∧ (c.get 19 1).1 = '2' ∧ (c.get 20 1).1 = ' ' := by
  let start : Session := ⟨.ofSheet { detectsCycles := true } 12 false, multiplying⟩
  have hview : ((Command.press ⟨.char ':', false⟩).perform.run start).map (fun p =>
      ((p.2.viewer.widths, p.2.viewer.corner, p.2.viewer.rows),
        ([p.2.viewer.showsHelp, p.2.viewer.showsExpressions],
          [p.2.terminal.width, p.2.terminal.height]),
        (Sheet.compute ⟨0, 1⟩ p.2.viewer.sheet).map (·.1.value.text))) =
      some ((Array.replicate 8 12, ⟨0, 0⟩, 20), ([false, false], [24, 5]), some [52, 50]) := by
    decide +kernel
  obtain ⟨⟨result, s⟩, hstep, hs⟩ := Option.map_eq_some_iff.mp hview
  simp only [Prod.mk.injEq, List.cons.injEq, and_true] at hs
  obtain ⟨⟨hwidths, hcorner, hrows⟩, ⟨⟨hhelp, hvalues⟩, hwidth, hheight⟩, htext⟩ := hs
  have hbound : ∀ a ∈ Array.replicate 8 (12 : Int64), a = 12 := fun a ha =>
    Array.eq_of_mem_replicate ha
  have hvisited : Visited start s := by
    refine .next (c := .press ⟨.char ':', false⟩) .start (fun a ha => ?_) hstep
    rw [hbound a ha]
    decide
  have hnarrow : ∀ a ∈ s.viewer.widths, a.toInt < 2 ^ 31 := by
    rw [hwidths]
    intro a ha
    rw [hbound a ha]
    decide
  have hstart : s.viewer.columnStart 1 = 17 := by
    rw [columnStart, hwidths, hcorner]
    decide
  obtain ⟨c, v, hrun, hc, hc', hcells, -⟩ := Visited.paint_shows rfl 12 false hvisited hhelp hnarrow
    (by rw [hheight]; decide) (.inr (by rw [hwidths]; decide))
  obtain ⟨t, ht, hcell⟩ := hcells 0 1 12 (by rw [hcorner]) (by rw [hrows]; decide)
    (by rw [hcorner, hheight]; decide) (by rw [hcorner]; decide) (by rw [hwidths]; rfl)
    (by rw [hstart, hwidth]; decide)
  obtain rfl : t = [52, 50] := by
    cases ht with
    | expression h => exact absurd (hvalues.symm.trans h) Bool.false_ne_true
    | value _ hc =>
      rw [show Int64.ofNat 1 = 1 by rfl] at hc
      rw [hc] at htext
      exact Option.some.inj htext
  have hplace (i : Nat) (px : Int64) (hi : (i : Int) < 12) (hpx : px.toInt = 17 + i)
      (hlast : px.toInt < 24) : (c.get px 1).1 = slotChar 12 [52, 50] i := by
    refine hcell i px 1 hi ?_ (by rw [hstart, hpx]) (by rw [hcorner]; rfl)
    rw [Canvas.contains_iff, hc, hc', hwidth, hheight]
    exact ⟨⟨by omega, hlast⟩, by decide, by decide⟩
  exact ⟨s, hvisited, hstart, hwidth, hhelp, hnarrow, c, v, hrun,
    hplace 0 17 (by decide) (by decide) (by decide), hplace 1 18 (by decide) (by decide) (by decide),
    hplace 2 19 (by decide) (by decide) (by decide), hplace 3 20 (by decide) (by decide) (by decide)⟩

end Session

end Spreadsheet
