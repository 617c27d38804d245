import Mathlib.Algebra.Order.BigOperators.Group.List
import Spreadsheet.Proofs.Viewer.Canvas
import Spreadsheet.Proofs.Viewer.Prompt

/-! # What a picture shows

Columns stand side by side, so the rectangles of the cells are disjoint: what is drawn later leaves
the texts of the cells before it alone. Drawing one cell writes the caches of others; but caches do
not matter to what shows, so every cell shows what it would have shown at the start.
-/
namespace Spreadsheet

namespace Viewer

open Text (ofString)

variable {v w : Viewer}

section Reading

/-- A viewer after its sheet was read, which shows what it showed before. -/
structure Reread (v w : Viewer) : Prop extends Redrawn v w where
  evaluating : w.sheet.evaluating = v.sheet.evaluating

theorem Reread.refl (hon : v.sheet.detectsCycles = true) : v.Reread v :=
  ⟨⟨rfl, hon, .refl _⟩, rfl⟩

/-- Reading a cell gives the same however the sheet was read before. -/
theorem Reread.compute_eq (hon : v.sheet.detectsCycles = true) (h : v.Reread w) (r : Ref) :
    ∃ c t u, w.compute r = some (c, t) ∧ v.Reread t ∧ Sheet.compute r v.sheet = some (c, u) := by
  obtain ⟨c, t, hc, ht⟩ := h.toRedrawn.exists_compute r
  obtain ⟨sheet, hcompute, hafter⟩ := Sheet.compute_of_detects h.detects r
  obtain ⟨u, hu, -⟩ := Sheet.compute_of_detects hon r
  have hread : w.compute r =
      some (w.sheet.cells.shown w.sheet.evaluating r, { w with sheet }) := by
    rw [compute, hcompute]
    rfl
  obtain ⟨rfl, rfl⟩ := Prod.mk.inj (Option.some.inj (hc.symm.trans hread))
  refine ⟨_, _, u, hc, ⟨ht, hafter.evaluating_eq.trans h.evaluating⟩, ?_⟩
  rw [hu, h.sources.shown_eq, h.evaluating]

/-- The text that a cell has to show: its stored expression, or the value that it has if it is
read. -/
inductive ShowsText (v : Viewer) (r : Ref) : Text → Prop
  | expression (h : v.showsExpressions = true) :
      ShowsText v r (((v.sheet.get? r).map (·.expression)).getD [])
  | value {c : Cell} {t : Sheet} (h : v.showsExpressions = false)
      (hc : Sheet.compute r v.sheet = some (c, t)) : ShowsText v r c.value.text

/-- The part of the status line about the cell at the cursor, if there is one. -/
inductive ShowsAtCursor (v : Viewer) : Text → Prop
  | blank (h : v.sheet.get? v.cursor = none) : ShowsAtCursor v []
  | stored {stored c : Cell} {t : Sheet} (h : v.sheet.get? v.cursor = some stored)
      (hc : Sheet.compute v.cursor v.sheet = some (c, t)) :
      ShowsAtCursor v (ofString ":= " ++ stored.expression ++ ofString "  = " ++ c.value.text
        ++ ofString "  ")

def ShowsStatus (v : Viewer) (t : Text) : Prop :=
  ∃ contents, v.ShowsAtCursor contents ∧
    t = v.cursor.label ++ ofString " (" ++ v.cursor.relativeLabel ++ ofString ")  " ++ contents
      ++ ofString (if v.showsExpressions then "[expressions]" else "[values]")

/-- However the sheet was read before, the computation ends with a value as described. -/
def Reads {α : Type} (v : Viewer) (m : Computation Viewer α) (Q : α → Prop) : Prop :=
  ∀ w, v.Reread w → ∃ a t, m w = some (a, t) ∧ v.Reread t ∧ Q a

namespace Reads

variable {α β : Type} {Q : α → Prop} {R : β → Prop}

theorem pure {a : α} (h : Q a) : Reads v (pure a) Q := fun w hw => ⟨a, w, rfl, hw, h⟩

theorem bind {m : Computation Viewer α} {k : α → Computation Viewer β} (hm : Reads v m Q)
    (hk : ∀ a, Q a → Reads v (k a) R) : Reads v (m >>= k) R := by
  intro w hw
  obtain ⟨a, t, ha, ht, hQ⟩ := hm w hw
  obtain ⟨b, u, hb, hu, hR⟩ := hk a hQ t ht
  exact ⟨b, u, (bind_apply_of_some ha).trans hb, hu, hR⟩

theorem weaken {m : Computation Viewer α} {Q' : α → Prop} (h : Reads v m Q) (hQ : ∀ a, Q a → Q' a) :
    Reads v m Q' := by
  intro w hw
  obtain ⟨a, t, ha, ht, hQa⟩ := h w hw
  exact ⟨a, t, ha, ht, hQ a hQa⟩

/-- A viewer that was read has the settings that it had. -/
theorem get : Reads v get fun w => w = { v with sheet := w.sheet } :=
  fun w hw => ⟨w, w, rfl, hw, hw.frame⟩

end Reads

variable (hon : v.sheet.detectsCycles = true)

include hon

theorem reads_shownText (r : Ref) : Reads v (shownText r) (v.ShowsText r) := by
  intro w hw
  obtain ⟨sheet, rfl⟩ : ∃ sheet, w = { v with sheet } := ⟨_, hw.frame⟩
  by_cases hexpressions : v.showsExpressions = true
  · have hstored : storedExpression { v with sheet } r =
        ((v.sheet.get? r).map (·.expression)).getD [] := by
      rw [storedExpression_eq]
      exact congrArg (·.getD []) (hw.sources.expression_eq r)
    exact ⟨_, _, by rw [shownText, if_pos hexpressions, hstored], hw, .expression hexpressions⟩
  · obtain ⟨c, t, u, ht, hreread, hu⟩ := hw.compute_eq hon r
    refine ⟨_, t, ?_, hreread, .value (Bool.eq_false_of_not_eq_true hexpressions) hu⟩
    rw [shownText, if_neg hexpressions, ht]
    rfl

theorem reads_statusText : Reads v statusText v.ShowsStatus := by
  intro w hw
  obtain ⟨sheet, rfl⟩ : ∃ sheet, w = { v with sheet } := ⟨_, hw.frame⟩
  have hsources := Cells.SameSources.symm hw.sources
  have hmode : ofString "[" ++ v.modeName ++ ofString "]" =
      ofString (if v.showsExpressions then "[expressions]" else "[values]") := by
    rw [modeName]
    cases v.showsExpressions <;> rfl
  cases hget : v.sheet.get? v.cursor with
  | none =>
    have hnone : sheet.get? v.cursor = none := hsources.get?_eq_none hget
    refine ⟨_, _, by simp only [statusText, hnone]; rfl, hw, [], .blank hget, ?_⟩
    rw [List.append_nil, ← hmode]
    rfl
  | some stored =>
    obtain ⟨d, hd, hexpression, -⟩ := hsources.exists_get? hget
    have hsome : sheet.get? v.cursor = some d := hd
    obtain ⟨c, t, u, ht, hreread, hu⟩ := hw.compute_eq hon v.cursor
    refine ⟨_, t, by simp only [statusText, hsome, ht, hexpression]; rfl, hreread, _,
      .stored hget hu, ?_⟩
    rw [← hmode]
    simp only [List.append_assoc]
    rfl

end Reading

section Slots

/-- The character at some place of a slot: a text between two blanks. -/
def slotChar (width : Int64) (t : Text) (i : Nat) : Char :=
  if i = 0 ∨ (i + 1 : Int) = width.toInt then ' ' else t.chars.getD (i - 1) ' '

namespace Slot

/-- Neither the start nor the end of a slot is beyond the largest word. -/
structure Fits (slot : Slot) : Prop where
  width : 0 ≤ slot.width.toInt
  start : slot.x.toInt < 2 ^ 63 - 1
  limit : slot.x.toInt + slot.width.toInt < 2 ^ 63

def Covers (slot : Slot) (px : Int64) : Prop :=
  slot.x.toInt ≤ px.toInt ∧ px.toInt < slot.x.toInt + slot.width.toInt

def Before (a b : Slot) : Prop := a.x.toInt + a.width.toInt ≤ b.x.toInt

end Slot

instance (slot : Slot) (px : Int64) : Decidable (slot.Covers px) :=
  inferInstanceAs (Decidable (_ ∧ _))

variable {c d : Canvas} {px py y : Int64} {slots : List Slot}

theorem get_drawSlot (hc : c.Whole) (hp : c.contains px py = true) (hpadding : v.layout.padding = 1)
    {slot : Slot} (hslot : slot.Fits) (t : Text) (style : Style) :
    (v.drawSlot slot y t style c).get px py = if y = py ∧ slot.Covers px then
      (slotChar slot.width t (px.toInt - slot.x.toInt).toNat, style) else c.get px py := by
  obtain ⟨hwidth, hstart, hlimit⟩ := hslot
  have hmost := slot.width.toInt_lt
  have htwo : (2 : Int64).toInt = 2 := rfl
  have hx : (slot.x + 1).toInt = slot.x.toInt + 1 := toInt_add_one hstart
  have hinner : (max 0 (slot.width - 2 * 1)).toInt = max 0 (slot.width.toInt - 2) := by
    rw [toInt_max, show (2 * 1 : Int64) = 2 by rfl, toInt_sub_eq (by omega) (by omega), htwo]
    rfl
  have hsize := (Canvas.SameSize.refl c).write slot.x y [] style slot.width
  rw [drawSlot, hpadding, Canvas.get_write (hc.of_sameSize hsize)
    ((Canvas.contains_of_sameSize hsize).trans hp) (by omega), Canvas.get_write hc hp hlimit, hx,
    hinner]
  by_cases hy : y = py
  · simp only [hy, true_and]
    by_cases hcover : slot.Covers px
    · have hbounds : slot.x.toInt ≤ px.toInt ∧ px.toInt < slot.x.toInt + slot.width.toInt := hcover
      rw [if_pos hbounds, if_pos hcover, slotChar]
      by_cases hedge : px.toInt = slot.x.toInt ∨ px.toInt + 1 = slot.x.toInt + slot.width.toInt
      · rw [if_neg (by omega), if_pos (by omega)]
        rfl
      · have hindex : (px.toInt - (slot.x.toInt + 1)).toNat =
            (px.toInt - slot.x.toInt).toNat - 1 := by omega
        rw [if_pos (by omega), if_neg (by omega), hindex]
    · have hbounds : ¬ (slot.x.toInt ≤ px.toInt ∧ px.toInt < slot.x.toInt + slot.width.toInt) := hcover
      rw [if_neg (by omega), if_neg hbounds, if_neg hcover]
  · simp only [hy, false_and, if_false]

end Slots

section Rows

open Canvas (SameSize)

variable {c d : Canvas} {slots : List Slot}

/-- The second canvas is the first one with the cells of a row in some line of it. -/
structure WithRow (v : Viewer) (slots : List Slot) (row y : Int64) (c d : Canvas) : Prop where
  size : SameSize c d
  inside : ∀ slot ∈ slots, ∃ t, v.ShowsText ⟨row, slot.col⟩ t ∧
    ∀ px, c.contains px y = true → slot.Covers px →
      (d.get px y).1 = slotChar slot.width t (px.toInt - slot.x.toInt).toNat
  outside : ∀ px py, c.contains px py = true → (y = py → ∀ slot ∈ slots, ¬ slot.Covers px) →
    d.get px py = c.get px py

/-- The second canvas is the first one with rows in the lines from some line on. -/
structure WithRows (v : Viewer) (slots : List Slot) (row y : Int64) (count : Nat) (c d : Canvas) :
    Prop where
  size : SameSize c d
  inside : ∀ k < count, ∀ slot ∈ slots, ∃ t,
    v.ShowsText ⟨row + Int64.ofNat k, slot.col⟩ t ∧
    ∀ px py, c.contains px py = true → py.toInt = y.toInt + k → slot.Covers px →
      (d.get px py).1 = slotChar slot.width t (px.toInt - slot.x.toInt).toNat
  outside : ∀ px py, c.contains px py = true → py.toInt < y.toInt ∨ y.toInt + count ≤ py.toInt →
    d.get px py = c.get px py

/-- Drawing a cell left of those of its row. -/
theorem WithRow.cons {slot : Slot} {row y : Int64} {t : Text} {style : Style} (hc : c.Whole)
    (hpadding : w.layout.padding = 1) (hslot : slot.Fits) (hbefore : ∀ b ∈ slots, slot.Before b)
    (ht : v.ShowsText ⟨row, slot.col⟩ t)
    (h : WithRow v slots row y (w.drawSlot slot y t style c) d) :
    WithRow v (slot :: slots) row y c d := by
  have hsize := sameSize_drawSlot (.refl c) w slot y t style
  have hcontains {px py : Int64} (hp : c.contains px py = true) :
      (w.drawSlot slot y t style c).contains px py = true :=
    (Canvas.contains_of_sameSize hsize).trans hp
  refine ⟨hsize.trans h.size, List.forall_mem_cons.mpr ⟨⟨t, ht, fun px hp hcover => ?_⟩, ?_⟩, ?_⟩
  · -- No slot further to the right reaches back to here.
    have hclear : ∀ b ∈ slots, ¬ b.Covers px := by
      intro b hb hcover'
      have hle : slot.x.toInt + slot.width.toInt ≤ b.x.toInt := hbefore b hb
      exact absurd (hcover.2.trans_le hle) (not_lt.mpr hcover'.1)
    rw [h.outside px y (hcontains hp) fun _ => hclear, get_drawSlot hc hp hpadding hslot,
      if_pos ⟨rfl, hcover⟩]
  · intro b hb
    obtain ⟨t', ht', hinside⟩ := h.inside b hb
    exact ⟨t', ht', fun px hp => hinside px (hcontains hp)⟩
  · intro px py hp hclear
    rw [h.outside px py (hcontains hp) fun hy => (List.forall_mem_cons.mp (hclear hy)).2,
      get_drawSlot hc hp hpadding hslot,
      if_neg fun hin => (List.forall_mem_cons.mp (hclear hin.1)).1 hin.2]

/-- Drawing a row above those that follow it. -/
theorem WithRows.cons {row y : Int64} {count : Nat} {number : Text} {style : Style} {gutter : Int64}
    {c₁ : Canvas} (hc : c.Whole) (hy : y.toInt + count + 1 < 2 ^ 63)
    (hrow : WithRow v slots row y (c.write 0 y number style gutter) c₁)
    (hrows : WithRows v slots (row + 1) (y + 1) count c₁ d) :
    WithRows v slots row y (count + 1) c d := by
  have hwritten := (SameSize.refl c).write 0 y number style gutter
  have hsize := hwritten.trans hrow.size
  have hnext : (y + 1).toInt = y.toInt + 1 := toInt_add_one (by omega)
  have hlater {px py : Int64} (hp : c.contains px py = true)
      (hpy : py.toInt < y.toInt + 1 ∨ y.toInt + 1 + count ≤ py.toInt) :
      d.get px py = c₁.get px py :=
    hrows.outside px py ((Canvas.contains_of_sameSize hsize).trans hp) (by rwa [hnext])
  refine ⟨hsize.trans hrows.size, fun k hk slot hslot => ?_, fun px py hp hpy => ?_⟩
  · cases k with
    | zero =>
      obtain ⟨t, ht, hinside⟩ := hrow.inside slot hslot
      refine ⟨t, by rwa [show Int64.ofNat 0 = 0 by rfl, Int64.add_zero], fun px py hp hpy hcover => ?_⟩
      obtain rfl : py = y := Int64.toInt_inj.mp (by omega)
      rw [hlater hp (by omega)]
      exact hinside px ((Canvas.contains_of_sameSize hwritten).trans hp) hcover
    | succ k =>
      obtain ⟨t, ht, hinside⟩ := hrows.inside k (by omega) slot hslot
      have hindex : row + 1 + Int64.ofNat k = row + Int64.ofNat (k + 1) := by
        rw [Int64.ofNat_add, Int64.add_assoc, Int64.add_comm 1]
        rfl
      refine ⟨t, by rwa [← hindex], fun px py hp hpy hcover => ?_⟩
      exact hinside px py ((Canvas.contains_of_sameSize hsize).trans hp) (by omega) hcover
  · have hne : y ≠ py := fun h => by rw [h] at hpy; omega
    have hzero : (0 : Int64).toInt = 0 := rfl
    have hgutter := gutter.toInt_lt
    rw [hlater hp (by omega), hrow.outside px py ((Canvas.contains_of_sameSize hwritten).trans hp)
      fun h => absurd h hne, Canvas.get_write hc hp (by omega), if_neg fun h => hne h.1]

variable (hon : v.sheet.detectsCycles = true) (hpadding : v.layout.padding = 1)
  (hslots : ∀ slot ∈ slots, slot.Fits) (hapart : slots.Pairwise Slot.Before)

include hon hpadding hslots hapart

theorem reads_drawCells (row y : Int64) (hc : c.Whole) :
    Reads v (drawCells row y slots c) (WithRow v slots row y c) := by
  induction slots generalizing c with
  | nil =>
    exact .pure ⟨.refl c, fun slot hslot => absurd hslot List.not_mem_nil, fun _ _ _ _ => rfl⟩
  | cons slot slots ih =>
    obtain ⟨hslot, hrest⟩ := List.forall_mem_cons.mp hslots
    obtain ⟨hbefore, hpairs⟩ := List.pairwise_cons.mp hapart
    refine (reads_shownText hon _).bind fun t ht => Reads.get.bind fun w hw => ?_
    have hlayout : w.layout.padding = 1 := by rw [hw, hpadding]
    have hdrawn := ih hrest hpairs (hc.of_sameSize (sameSize_drawSlot (.refl c) w slot y t
      (if (⟨row, slot.col⟩ : Ref) = w.cursor then selectedCellStyle else {})))
    exact hdrawn.weaken fun _ h => h.cons hc hlayout hslot hbefore ht

theorem reads_drawRows (row y : Int64) (count : Nat) (hc : c.Whole) (hy : y.toInt + count < 2 ^ 63) :
    Reads v (drawRows slots row y count c) (WithRows v slots row y count c) := by
  induction count generalizing c row y with
  | zero => exact .pure ⟨.refl c, fun k hk => absurd hk (Nat.not_lt_zero k), fun _ _ _ _ => rfl⟩
  | succ count ih =>
    have hnext : (y + 1).toInt = y.toInt + 1 := toInt_add_one (by omega)
    refine Reads.get.bind fun w _ => ?_
    have hwritten := (SameSize.refl c).write 0 y (Decimal.ofInt64 (row + 1))
      (if row = w.cursor.row then selectedLabelStyle else labelStyle) (w.layout.gutter - 1)
    refine (reads_drawCells hon hpadding hslots hapart row y (hc.of_sameSize hwritten)).bind
      fun d hd => ?_
    have hrows := ih (row + 1) (y + 1) (hc.of_sameSize (hwritten.trans hd.size)) (by omega)
    exact hrows.weaken fun _ h => .cons hc (by omega) hd h

end Rows

section Whole

open Canvas (SameSize)

variable {slots : List Slot} {width height : Int64} {d : Canvas}

/-- A canvas that shows the cells of a viewer in their slots and the two lines below them. -/
structure Depicts (v : Viewer) (slots : List Slot) (d : Canvas) : Prop where
  cells : ∀ k < v.shownRows d.height, ∀ slot ∈ slots, ∃ t,
    v.ShowsText ⟨v.corner.row + Int64.ofNat k, slot.col⟩ t ∧
    ∀ px py, d.contains px py = true → py.toInt = 1 + k → slot.Covers px →
      (d.get px py).1 = slotChar slot.width t (px.toInt - slot.x.toInt).toNat
  status : ∃ t, v.ShowsStatus t ∧
    ∀ px py, d.contains px py = true → py.toInt = d.height.toInt - 2 →
      (d.get px py).1 = t.chars.getD px.toInt.toNat ' '
  message : ∀ px py, d.contains px py = true → py.toInt = d.height.toInt - 1 →
    (d.get px py).1 = v.message.chars.getD px.toInt.toNat ' '

theorem toInt_sub_statusLines (hstatus : v.layout.statusLines = 2) (hheight : 3 ≤ height.toInt) :
    (height - v.layout.statusLines).toInt = height.toInt - 2 := by
  have hmost := height.toInt_lt
  have htwo : (2 : Int64).toInt = 2 := rfl
  rw [hstatus, toInt_sub_eq (by omega) (by omega), htwo]

/-- A line from one side of a canvas to the other. -/
theorem get_line {c : Canvas} (hc : c.Whole) (hwidth : c.width = width) {px py y : Int64}
    (hp : c.contains px py = true) (t : Text) (style : Style) :
    (c.write 0 y t style width).get px py =
      if y = py then (t.chars.getD px.toInt.toNat ' ', style) else c.get px py := by
  have hzero : (0 : Int64).toInt = 0 := rfl
  have hlimit := width.toInt_lt
  have hbounds := Canvas.contains_iff.mp hp
  rw [hwidth] at hbounds
  rw [Canvas.get_write hc hp (by omega), hzero, Int.sub_zero]
  exact ite_congr (propext (and_iff_left (by omega))) (fun _ => rfl) fun _ => rfl

/-- The lines below the rows are written last. -/
theorem WithRows.depicts {c : Canvas} {t : Text} {top : Int64} (hc : c.Whole)
    (hd : WithRows v slots v.corner.row 1 (v.shownRows c.height) c d) (ht : v.ShowsStatus t)
    (hwidth : c.width = width) (htop : top.toInt = c.height.toInt - 2)
    (hcount : v.shownRows c.height + 3 ≤ c.height.toInt) :
    v.Depicts slots
      ((d.write 0 top t statusStyle width).write 0 (top + 1) v.message statusStyle width) := by
  have hlimit := c.height.toInt_lt
  have hbottom : (top + 1).toInt = c.height.toInt - 1 := by
    rw [toInt_add_one (by omega), htop]
    omega
  have hstatus := (SameSize.refl d).write 0 top t statusStyle width
  have hmessage := hstatus.write 0 (top + 1) v.message statusStyle width
  have hwhole : d.Whole := hc.of_sameSize hd.size
  have hget {px py : Int64} (hp : d.contains px py = true) :
      ((d.write 0 top t statusStyle width).write 0 (top + 1) v.message statusStyle width).get px py =
        if top + 1 = py then (v.message.chars.getD px.toInt.toNat ' ', statusStyle)
        else if top = py then (t.chars.getD px.toInt.toNat ' ', statusStyle) else d.get px py := by
    have hdwidth : d.width = width := hd.size.width.trans hwidth
    rw [get_line (hwhole.of_sameSize hstatus) (hstatus.width.trans hdwidth)
      ((Canvas.contains_of_sameSize hstatus).trans hp), get_line hwhole hdwidth hp]
  generalize (d.write 0 top t statusStyle width).write 0 (top + 1) v.message statusStyle width = e at *
  have hsize := hd.size.trans hmessage
  have hone : (1 : Int64).toInt = 1 := rfl
  have hdrawn {px py : Int64} (hp : e.contains px py = true) : d.contains px py = true :=
    (Canvas.contains_of_sameSize hmessage).symm.trans hp
  refine ⟨fun k hk slot hslot => ?_, ⟨t, ht, fun px py hp hpy => ?_⟩, fun px py hp hpy => ?_⟩
  · rw [hsize.height] at hk
    obtain ⟨t', ht', hinside⟩ := hd.inside k hk slot hslot
    refine ⟨t', ht', fun px py hp hpy hcover => ?_⟩
    rw [hget (hdrawn hp), if_neg (fun h => by rw [← h] at hpy; omega),
      if_neg (fun h => by rw [← h] at hpy; omega)]
    exact hinside px py ((Canvas.contains_of_sameSize hsize).symm.trans hp) (by omega) hcover
  · rw [hsize.height] at hpy
    rw [hget (hdrawn hp), if_neg (fun h => by rw [← h] at hpy; omega),
      if_pos (Int64.toInt_inj.mp (by omega))]
  · rw [hsize.height] at hpy
    rw [hget (hdrawn hp), if_pos (Int64.toInt_inj.mp (by omega))]

theorem reads_picture (hon : v.sheet.detectsCycles = true) (hpadding : v.layout.padding = 1)
    (hstatus : v.layout.statusLines = 2) (hhelp : v.showsHelp = false)
    (hslots : ∀ slot ∈ slots, slot.Fits) (hapart : slots.Pairwise Slot.Before)
    (hheight : 3 ≤ height.toInt) : Reads v (picture slots width height) (v.Depicts slots) := by
  have hmost := height.toInt_lt
  have hlines := toInt_sub_statusLines hstatus hheight
  have htop : (max 0 (height - v.layout.statusLines)).toInt = height.toInt - 2 := by
    rw [toInt_max, hlines, Int64.toInt_zero]
    omega
  have hcount : v.shownRows height + 3 ≤ height.toInt := by
    rw [shownRows, hlines]
    omega
  refine Reads.get.bind fun w hw => ?_
  obtain ⟨sheet, rfl⟩ : ∃ sheet, w = { v with sheet } := ⟨_, hw⟩
  have hheader := sameSize_drawHeader (.refl (.blank width height)) { v with sheet } slots
  have hwhole := (Canvas.whole_blank width height).of_sameSize hheader
  refine (reads_drawRows hon hpadding hslots hapart v.corner.row 1 (v.shownRows height) hwhole
    (by rw [Int64.toInt_one]; omega)).bind fun d hd => ?_
  refine (reads_statusText hon).bind fun t ht => .pure ?_
  simp only [hhelp, Bool.false_eq_true, if_false]
  have hh : Canvas.height (drawHeader { v with sheet } slots (.blank width height)) = height :=
    hheader.height
  refine WithRows.depicts hwhole ?_ ht hheader.width ?_ ?_
  · rwa [hh]
  · rwa [hh]
  · rwa [hh]

end Whole

section Placing

variable {limit x col : Int64} {ws : List Int64}

/-- No column that starts before the limit ends beyond the largest word: the limit is low enough for
one more column, or all columns end in time. -/
def Room (limit x : Int64) (ws : List Int64) : Prop :=
  limit.toInt + 2 ^ 31 ≤ 2 ^ 63 ∨ x.toInt + (ws.map Int64.toInt).sum < 2 ^ 63

theorem sum_toInt_nonneg (h : ∀ w ∈ ws, 0 ≤ w.toInt) : 0 ≤ (ws.map Int64.toInt).sum := by
  refine List.sum_nonneg fun b hb => ?_
  obtain ⟨w, hw, rfl⟩ := List.mem_map.mp hb
  exact h w hw

variable (hws : ∀ w ∈ ws, 0 ≤ w.toInt ∧ w.toInt < 2 ^ 31)

include hws

/-- A column has a slot where the columns before it end, if that is on the screen. -/
theorem exists_slot {k : Nat} {w : Int64} (hw : ws[k]? = some w)
    (hx : x.toInt + ((ws.take k).map Int64.toInt).sum < limit.toInt) :
    ∃ slot ∈ place limit x col ws, slot.col = col + Int64.ofNat k ∧ slot.width = w ∧
      slot.x.toInt = x.toInt + ((ws.take k).map Int64.toInt).sum := by
  induction ws generalizing x col k with
  | nil => cases hw
  | cons a ws ih =>
    obtain ⟨ha, hrest⟩ := List.forall_mem_cons.mp hws
    have hleast := x.le_toInt
    have hmost := limit.toInt_lt
    cases k with
    | zero =>
      simp only [List.take_zero, List.map_nil, List.sum_nil, Int.add_zero] at hx ⊢
      rw [place, if_pos (Int64.lt_iff_toInt_lt.mpr hx)]
      refine ⟨⟨col, x, a⟩, List.mem_cons_self, (Int64.add_zero col).symm, ?_, rfl⟩
      simpa using hw
    | succ k =>
      have hnonneg : 0 ≤ ((ws.take k).map Int64.toInt).sum :=
        sum_toInt_nonneg fun b hb => (hrest b (List.mem_of_mem_take hb)).1
      simp only [List.take_succ_cons, List.map_cons, List.sum_cons] at hx ⊢
      have hnext : (x + a).toInt = x.toInt + a.toInt := toInt_add_eq (by omega) (by omega)
      obtain ⟨slot, hslot, hcol, hwidth, hstart⟩ := @ih (x + a) (col + 1) hrest k hw (by omega)
      rw [place, if_pos (Int64.lt_iff_toInt_lt.mpr (by omega))]
      refine ⟨slot, List.mem_cons_of_mem _ hslot, ?_, hwidth, by omega⟩
      rw [hcol, Int64.ofNat_add, Int64.add_assoc, Int64.add_comm 1]
      rfl

/-- Few columns have room on every screen. -/
theorem room_of_length (hx : x.toInt ≤ 5) (hlength : (ws.length : Int) < 2 ^ 32) :
    Room limit x ws := by
  have hsum : (ws.map Int64.toInt).sum ≤ (ws.map Int64.toInt).length • (2 ^ 31 - 1 : Int) := by
    refine List.sum_le_card_nsmul _ _ fun b hb => ?_
    obtain ⟨w, hw, rfl⟩ := List.mem_map.mp hb
    have hless := (hws w hw).2
    omega
  rw [List.length_map, nsmul_eq_mul] at hsum
  right
  omega

/-- The column placed next starts where the one at `x` ends, and the others have room from there. -/
theorem Room.next {w : Int64} (hw : 0 ≤ w.toInt ∧ w.toInt < 2 ^ 31) (hroom : Room limit x (w :: ws))
    (hx : x.toInt < limit.toInt) :
    (x + w).toInt = x.toInt + w.toInt ∧ x.toInt + w.toInt < 2 ^ 63 ∧ Room limit (x + w) ws := by
  have hleast := x.le_toInt
  have hsum := sum_toInt_nonneg fun b hb => (hws b hb).1
  rw [Room, List.map_cons, List.sum_cons] at hroom
  have hend : x.toInt + w.toInt < 2 ^ 63 := by omega
  have hnext : (x + w).toInt = x.toInt + w.toInt := toInt_add_eq (by omega) hend
  refine ⟨hnext, hend, ?_⟩
  rw [Room, hnext]
  omega

/-- Columns are placed from `x` on, and none of them reaches the end of the words. -/
theorem fits_place (hroom : Room limit x ws) {slot : Slot} (h : slot ∈ place limit x col ws) :
    x.toInt ≤ slot.x.toInt ∧ slot.Fits := by
  induction ws generalizing x col with
  | nil => exact absurd h List.not_mem_nil
  | cons w ws ih =>
    obtain ⟨hw, hrest⟩ := List.forall_mem_cons.mp hws
    rw [place] at h
    split at h
    · next hx =>
      rw [Int64.lt_iff_toInt_lt] at hx
      have hmost := limit.toInt_lt
      obtain ⟨hnext, hend, hroom'⟩ := hroom.next hrest hw hx
      rcases List.mem_cons.mp h with rfl | h
      · exact ⟨le_rfl, hw.1, by change x.toInt < _; omega, hend⟩
      · obtain ⟨hle, hfits⟩ := ih hrest hroom' h
        exact ⟨by omega, hfits⟩
    · exact absurd h List.not_mem_nil

theorem pairwise_place (hroom : Room limit x ws) : (place limit x col ws).Pairwise Slot.Before := by
  induction ws generalizing x col with
  | nil => exact .nil
  | cons w ws ih =>
    obtain ⟨hw, hrest⟩ := List.forall_mem_cons.mp hws
    rw [place]
    split
    · next hx =>
      obtain ⟨hnext, -, hroom'⟩ := hroom.next hrest hw (Int64.lt_iff_toInt_lt.mp hx)
      refine .cons (fun b hb => ?_) (ih hrest hroom')
      exact hnext.symm.trans_le (fits_place hrest hroom' hb).1
    · exact .nil

end Placing

end Viewer

end Spreadsheet
