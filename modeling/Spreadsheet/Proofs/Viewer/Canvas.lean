import Spreadsheet.Proofs.Grammar.Layout
import Spreadsheet.Proofs.Viewer.Session

/-! # Drawing on a canvas

What is drawn does not change the size of a canvas. Where a text is written the canvas holds its
characters and then spaces, and everywhere else what it held before.
-/
namespace Spreadsheet

namespace Canvas

variable {c d e : Canvas} {x y px py : Int64} {ch : Char} {style : Style}

section Size

structure SameSize (c d : Canvas) : Prop where
  width : d.width = c.width
  height : d.height = c.height
  size : d.cells.size = c.cells.size

theorem fillChars_succ (c : Canvas) (x y : Int64) (style : Style) (n : Nat) (chs : List Char) :
    c.fillChars x y style (n + 1) chs =
      (c.set x y (chs.headD ' ') style).fillChars (x + 1) y style n chs.tail := by
  cases chs <;> rfl

namespace SameSize

theorem refl (c : Canvas) : SameSize c c := ⟨rfl, rfl, rfl⟩

theorem trans (h : SameSize c d) (h' : SameSize d e) : SameSize c e :=
  ⟨h'.width.trans h.width, h'.height.trans h.height, h'.size.trans h.size⟩

variable (h : SameSize c d)

include h

theorem set (x y : Int64) (ch : Char) (style : Style) : SameSize c (d.set x y ch style) := by
  unfold Canvas.set
  split
  · exact h.trans ⟨rfl, rfl, Array.size_setIfInBounds⟩
  · exact h

theorem fillChars (x y : Int64) (style : Style) (n : Nat) (chs : List Char) :
    SameSize c (d.fillChars x y style n chs) := by
  induction n generalizing d x chs with
  | zero => exact h
  | succ n ih =>
    rw [fillChars_succ]
    exact ih (h.set ..) ..

theorem write (x y : Int64) (t : Text) (style : Style) (width : Int64) :
    SameSize c (d.write x y t style width) := h.fillChars ..

theorem horizontal (x y : Int64) (ch : Char) (style : Style) (length : Int64) :
    SameSize c (d.horizontal x y ch style length) := h.fillChars ..

theorem downwards {step : Canvas → Int64 → Canvas} (hstep : ∀ d y, SameSize c d → SameSize c (step d y))
    (y : Int64) (n : Nat) : SameSize c (downwards step d y n) := by
  induction n generalizing d y with
  | zero => exact h
  | succ n ih => exact ih (hstep d y h) _

theorem box (left top width height : Int64) (style : Style) :
    SameSize c (d.box left top width height style) := by
  have hcleared := h.downwards (fun d y hd => hd.horizontal left y ' ' style width) top
    height.toInt.toNat
  have hframed := ((hcleared.horizontal left top '─' style width).horizontal left
    (top + height - 1) '─' style width).downwards (fun d y hd =>
      (hd.set left y '│' style).set (left + width - 1) y '│' style) top height.toInt.toNat
  exact (((hframed.set ..).set ..).set ..).set ..

end SameSize

end Size

section Positions

/-- The canvas has a place for each of its positions. -/
def Whole (c : Canvas) : Prop := c.cells.size = c.width.toInt.toNat * c.height.toInt.toNat

theorem whole_blank (width height : Int64) : (blank width height).Whole := Array.size_replicate

theorem Whole.of_sameSize (h : c.Whole) (hsame : SameSize c d) : d.Whole := by
  rw [Whole, hsame.width, hsame.height, hsame.size]
  exact h

theorem contains_iff : c.contains x y = true ↔
    (0 ≤ x.toInt ∧ x.toInt < c.width.toInt) ∧ 0 ≤ y.toInt ∧ y.toInt < c.height.toInt := by
  simp only [contains, Bool.and_eq_true, decide_eq_true_eq, Int64.le_iff_toInt_le,
    Int64.lt_iff_toInt_lt, Int64.toInt_zero]
  tauto

theorem contains_of_sameSize (h : SameSize c d) : d.contains x y = c.contains x y := by
  rw [contains, contains, h.width, h.height]

/-- Different positions have different places. -/
theorem index_inj (hxy : c.contains x y = true) (hp : c.contains px py = true) :
    c.index x y = c.index px py ↔ x = px ∧ y = py := by
  rw [contains_iff] at hxy hp
  refine ⟨fun h => ?_, fun ⟨hx, hy⟩ => by rw [hx, hy]⟩
  have hrow {a b w : Nat} (hb : b < w) : (a * w + b) / w = a := by
    rw [Nat.mul_comm, Nat.mul_add_div (by omega), Nat.div_eq_of_lt hb, Nat.add_zero]
  have hy : y.toInt.toNat = py.toInt.toNat := by
    have hdiv := congrArg (· / c.width.toInt.toNat) h
    simp only [index] at hdiv
    rwa [hrow (by omega), hrow (by omega)] at hdiv
  have hx : x.toInt.toNat = px.toInt.toNat := by
    simp only [index, hy] at h
    omega
  exact ⟨Int64.toInt_inj.mp (by omega), Int64.toInt_inj.mp (by omega)⟩

theorem index_lt (hc : c.Whole) (hxy : c.contains x y = true) : c.index x y < c.cells.size := by
  rw [contains_iff] at hxy
  rw [hc, index]
  have hrows : (y.toInt.toNat + 1) * c.width.toInt.toNat ≤
      c.height.toInt.toNat * c.width.toInt.toNat := Nat.mul_le_mul_right _ (by omega)
  rw [Nat.succ_mul] at hrows
  rw [Nat.mul_comm c.width.toInt.toNat]
  omega

theorem get_set (hc : c.Whole) (hp : c.contains px py = true) :
    (c.set x y ch style).get px py = if x = px ∧ y = py then (ch, style) else c.get px py := by
  unfold set
  split
  · next hxy =>
    simp only [get]
    change (c.cells.setIfInBounds (c.index x y) (ch, style))[c.index px py]?.getD _ = _
    rw [Array.getElem?_setIfInBounds]
    simp only [index_inj hxy hp]
    split
    · rw [if_pos (index_lt hc hxy), Option.getD_some]
    · rfl
  · next hxy =>
    rw [if_neg]
    rintro ⟨rfl, rfl⟩
    exact hxy hp

/-- Characters stand one after the other from where writing starts, and spaces follow them. -/
theorem get_fillChars (hc : c.Whole) (hp : c.contains px py = true) {n : Nat} {chs : List Char}
    (hend : x.toInt + n < 2 ^ 63) : (c.fillChars x y style n chs).get px py =
      if y = py ∧ x.toInt ≤ px.toInt ∧ px.toInt < x.toInt + n then
        (chs.getD (px.toInt - x.toInt).toNat ' ', style)
      else c.get px py := by
  induction n generalizing c x chs with
  | zero =>
    rw [if_neg (by omega)]
    rfl
  | succ n ih =>
    have hnext : (x + 1).toInt = x.toInt + 1 := toInt_add_one (by omega)
    have hset := (SameSize.refl c).set x y (chs.headD ' ') style
    rw [fillChars_succ, ih (hc.of_sameSize hset) ((contains_of_sameSize hset).trans hp) (by omega),
      get_set hc hp, hnext]
    by_cases hy : y = py
    · simp only [hy, true_and, and_true]
      rcases Int.lt_trichotomy px.toInt x.toInt with hlt | heq | hgt
      · have hx : x ≠ px := fun h => by rw [h] at hlt; omega
        rw [if_neg (by omega), if_neg hx, if_neg (by omega)]
      · rw [if_neg (by omega), if_pos (Int64.toInt_inj.mp heq).symm, if_pos (by omega), heq,
          Int.sub_self]
        cases chs <;> rfl
      · have hx : x ≠ px := fun h => by rw [h] at hgt; omega
        have hoffset : (px.toInt - x.toInt).toNat = (px.toInt - (x.toInt + 1)).toNat + 1 := by omega
        rw [if_neg hx, hoffset]
        refine ite_congr (propext (by omega)) (fun _ => ?_) fun _ => rfl
        cases chs <;> rfl
    · simp only [hy, false_and, and_false, if_false]

/-- A text is cut or padded to the width of its field. -/
theorem get_write (hc : c.Whole) (hp : c.contains px py = true) {t : Text} {width : Int64}
    (hend : x.toInt + width.toInt < 2 ^ 63) : (c.write x y t style width).get px py =
      if y = py ∧ x.toInt ≤ px.toInt ∧ px.toInt < x.toInt + width.toInt then
        (t.chars.getD (px.toInt - x.toInt).toNat ' ', style)
      else c.get px py := by
  have hlimit := x.toInt_lt
  rw [write, get_fillChars hc hp (by omega)]
  exact ite_congr (propext (and_congr_right fun _ => by omega)) (fun _ => rfl) fun _ => rfl

end Positions

end Canvas

namespace Viewer

open Canvas (SameSize)

variable {v : Viewer} {c d : Canvas}

theorem sameSize_drawSlot (h : SameSize c d) (v : Viewer) (slot : Slot) (y : Int64) (t : Text)
    (style : Style) : SameSize c (v.drawSlot slot y t style d) := (h.write ..).write ..

theorem sameSize_drawHeader (h : SameSize c d) (v : Viewer) (slots : List Slot) :
    SameSize c (v.drawHeader slots d) := by
  unfold drawHeader
  induction slots generalizing d with
  | nil => exact h
  | cons slot slots ih => exact ih (sameSize_drawSlot h ..)

theorem sameSize_drawHelp (h : SameSize c d) : SameSize c (drawHelp d) := by
  have hlines (lines : List Text) (x y width : Int64) {d : Canvas} (hd : SameSize c d) :
      SameSize c
        (lines.foldl (fun p line => (p.1.write x p.2 line helpStyle width, p.2 + 1)) (d, y)).1 := by
    induction lines generalizing d y with
    | nil => exact hd
    | cons line lines ih => exact ih _ (hd.write ..)
  unfold drawHelp
  split
  · exact h
  · exact hlines _ _ _ _ (h.box ..)

theorem ensures_drawCells (h : SameSize c d) (row y : Int64) (slots : List Slot) :
    Ensures (drawCells row y slots d) (SameSize c) := by
  induction slots generalizing d with
  | nil => exact .pure h
  | cons slot slots ih =>
    refine (Ensures.true _).bind fun t _ => (Ensures.true _).bind fun v _ => ?_
    exact ih (sameSize_drawSlot h ..)

theorem ensures_drawRows (h : SameSize c d) (slots : List Slot) (row y : Int64) (count : Nat) :
    Ensures (drawRows slots row y count d) (SameSize c) := by
  induction count generalizing d row y with
  | zero => exact .pure h
  | succ count ih =>
    refine (Ensures.true _).bind fun v _ => ?_
    exact (ensures_drawCells (h.write ..) row y slots).bind fun d hd => ih hd _ _

/-- A picture is as large as its screen. -/
theorem ensures_picture (slots : List Slot) (width height : Int64) :
    Ensures (picture slots width height) (SameSize (.blank width height)) := by
  refine (Ensures.true _).bind fun v _ => ?_
  refine (ensures_drawRows (sameSize_drawHeader (.refl _) v slots) _ _ _ _).bind fun d hd => ?_
  refine (Ensures.true _).bind fun t _ => .pure ?_
  have hdrawn := (hd.write 0 (max 0 (height - v.layout.statusLines)) t statusStyle width).write 0
    (max 0 (height - v.layout.statusLines) + 1) v.message statusStyle width
  split
  · exact sameSize_drawHelp hdrawn
  · exact hdrawn

end Viewer

namespace Session

variable {s : Session} {slots : List Viewer.Slot} {c : Canvas} {v : Viewer}

/-- Painting shows the picture of the viewer. -/
theorem paint_eq (hslots : s.viewer.slots s.terminal.width = .ok slots)
    (hpicture : Viewer.picture slots s.terminal.width s.terminal.height s.viewer = some (c, v)) :
    paint.run s =
      some (.ok c, ⟨v, { s.terminal with frames := ⟨c, none⟩ :: s.terminal.frames }⟩) := by
  have hpaint : Succeeds paint s fun a t =>
      a = c ∧ t = ⟨v, { s.terminal with frames := ⟨c, none⟩ :: s.terminal.frames }⟩ := by
    have hdrawn : Succeeds
        (onViewer (Viewer.picture slots s.terminal.width s.terminal.height)) s fun a t =>
          a = c ∧ t = { s with viewer := v } := .onViewer hpicture ⟨rfl, rfl⟩
    refine .getTerminal (.getViewer (.orFail hslots (hdrawn.bind ?_)))
    rintro _ _ ⟨rfl, rfl⟩
    exact ⟨_, _, rfl, rfl, rfl⟩
  obtain ⟨_, _, hrun, rfl, rfl⟩ := hpaint
  exact hrun

end Session

end Spreadsheet
