import Spreadsheet.Proofs.Viewer.Canvas
import Spreadsheet.Proofs.Viewer.Prompt

/-! # Editing a line

A line with a caret is a gap buffer: two lists of characters that meet at the caret. Keys take
characters from the ends that meet, add to the first list, or move characters from one list to the
other. The box shows a window of the line that the caret never leaves, so the text cursor is always
inside the box.
-/
namespace Spreadsheet

/-- The characters before the caret and those after it. -/
structure GapBuffer where
  before : List Char
  after : List Char
  deriving DecidableEq, Repr

namespace GapBuffer

/-- The caret starts at the end of the characters. -/
def ofChars (chars : List Char) : GapBuffer := ⟨chars, []⟩

def press (g : GapBuffer) (k : KeyEvent) : GapBuffer :=
  match k.key with
  | .backspace | .rubout => ⟨g.before.dropLast, g.after⟩
  | .delete => ⟨g.before, g.after.tail⟩
  | .left => ⟨g.before.dropLast, g.before.getLast?.toList ++ g.after⟩
  | .right => ⟨g.before ++ g.after.head?.toList, g.after.tail⟩
  | .home | .ctrlA => ⟨[], g.before ++ g.after⟩
  | .last | .ctrlE => ⟨g.before ++ g.after, []⟩
  | .ctrlU => ⟨[], []⟩
  | .char c => if g.before.length + g.after.length < 4096 then ⟨g.before ++ [c], g.after⟩ else g
  | _ => g

def pressAll (g : GapBuffer) (keys : List KeyEvent) : GapBuffer := keys.foldl press g

def line (g : GapBuffer) : InputLine := ⟨g.before ++ g.after, g.before.length⟩

variable (g : GapBuffer)

theorem line_eraseBefore : g.line.eraseBefore = line ⟨g.before.dropLast, g.after⟩ := by
  obtain ⟨before, after⟩ := g
  rcases List.eq_nil_or_concat before with rfl | ⟨init, c, rfl⟩
  · rfl
  · simp [line, InputLine.eraseBefore, InputLine.after]

theorem line_eraseAfter : g.line.eraseAfter = line ⟨g.before, g.after.tail⟩ := by
  obtain ⟨before, after⟩ := g
  cases after with
  | nil => simp [line, InputLine.eraseAfter]
  | cons c after => simp [line, InputLine.eraseAfter, InputLine.before]

theorem line_insert (c : Char) : g.line.insert c =
    line (if g.before.length + g.after.length < 4096 then ⟨g.before ++ [c], g.after⟩ else g) := by
  rw [InputLine.insert, apply_ite line]
  refine ite_congr (by rw [line, List.length_append]; rfl) (fun _ => ?_) fun _ => rfl
  simp [line, InputLine.before, InputLine.after]

theorem line_left : (⟨g.line.chars, g.line.caret - 1⟩ : InputLine) =
    line ⟨g.before.dropLast, g.before.getLast?.toList ++ g.after⟩ := by
  obtain ⟨before, after⟩ := g
  rcases List.eq_nil_or_concat before with rfl | ⟨init, c, rfl⟩
  · rfl
  · simp [line]

theorem line_right :
    (if g.line.caret < g.line.chars.length then ⟨g.line.chars, g.line.caret + 1⟩ else g.line) =
      line ⟨g.before ++ g.after.head?.toList, g.after.tail⟩ := by
  obtain ⟨before, after⟩ := g
  cases after with
  | nil => simp [line]
  | cons c after => simp [line]

/-- A key does to a line what it does to its gap buffer. -/
theorem line_press (k : KeyEvent) : (g.line.press k).1 = (g.press k).line := by
  unfold InputLine.press press
  split <;> simp only [*]
  · exact g.line_eraseBefore
  · exact g.line_eraseBefore
  · exact g.line_eraseAfter
  · exact g.line_left
  · exact g.line_right
  · rfl
  · rfl
  · simp [line]
  · simp [line]
  · rfl
  · exact g.line_insert _

end GapBuffer

namespace InputLine

/-- The line after some keys, whether they end the editing or not. -/
def pressAll (e : InputLine) (keys : List KeyEvent) : InputLine :=
  keys.foldl (fun e k => (e.press k).1) e

theorem pressAll_line (g : GapBuffer) (keys : List KeyEvent) :
    g.line.pressAll keys = (g.pressAll keys).line := by
  induction keys generalizing g with
  | nil => rfl
  | cons k keys ih =>
    rw [pressAll, List.foldl_cons, g.line_press k]
    exact ih (g.press k)

theorem ofText_eq (t : Text) : ofText t = (GapBuffer.ofChars t.chars).line := by
  simp [ofText, GapBuffer.ofChars, GapBuffer.line]

/-- Typing makes a line longer, unless it is full. -/
theorem insert_eq_self_iff (e : InputLine) (c : Char) : e.insert c = e ↔ 4096 ≤ e.chars.length := by
  rw [insert]
  split
  · next h =>
    have hcaret (chars : List Char) : (⟨chars, e.caret + 1⟩ : InputLine) ≠ e := fun he =>
      Nat.succ_ne_self e.caret (congrArg caret he)
    exact iff_of_false (hcaret _) (Nat.not_le.mpr h)
  · next h => exact iff_of_true rfl (Nat.not_lt.mp h)

section Window

variable (e : InputLine) (field : Nat)

def windowEnd : Nat := min e.chars.length (e.windowStart field + field)

theorem window_eq :
    e.window field = (e.chars.take (e.windowEnd field)).drop (e.windowStart field) := by
  have hlength : e.windowEnd field - e.windowStart field =
      min field (e.chars.length - e.windowStart field) := by
    rw [windowEnd]
    omega
  rw [window, List.drop_take, hlength, ← List.length_drop, List.take_eq_take_min]

theorem windowStart_le_windowEnd (h : e.caret ≤ e.chars.length) :
    e.windowStart field ≤ e.windowEnd field := by
  rw [windowEnd, windowStart]
  omega

end Window

end InputLine

namespace Session

open Text

section Box

variable (screen : Int64)

def boxLeft : Int64 := (screen - boxWidth screen) / 2

def boxTop : Int64 := (screen - 3) / 2

theorem boxWidth_bounds : 24 ≤ (boxWidth screen).toInt ∧ (boxWidth screen).toInt ≤ 60 := by
  rw [boxWidth, toInt_max, toInt_min, show (24 : Int64).toInt = 24 by rfl,
    show (60 : Int64).toInt = 60 by rfl]
  omega

theorem toInt_fieldWidth :
    (fieldWidth (boxWidth screen) 1).toInt = (boxWidth screen).toInt - 6 := by
  obtain ⟨hlower, hupper⟩ := boxWidth_bounds screen
  generalize boxWidth screen = box at *
  have hfour : (4 : Int64).toInt = 4 := rfl
  have hone : (1 : Int64).toInt = 1 := rfl
  have hframe : (box - 4).toInt = box.toInt - 4 := toInt_sub_eq (by omega) (by omega)
  have hprompt : (box - 4 - 1).toInt = box.toInt - 5 := by
    rw [toInt_sub_one (by omega), hframe]
    omega
  rw [fieldWidth, toInt_max, toInt_sub_one (by omega), hprompt]
  omega

/-- The number of characters that fit into the field beside the prompt. -/
def fieldLength : Nat := (fieldWidth (boxWidth screen) 1).toInt.toNat

theorem fieldLength_eq : (fieldLength screen : Int) = (boxWidth screen).toInt - 6 := by
  have hbounds := boxWidth_bounds screen
  rw [fieldLength, toInt_fieldWidth]
  omega

end Box

/-- A canvas with the box over it, in which part of a line shows beside the prompt. -/
def boxed (c : Canvas) (e : InputLine) : Canvas :=
  let left := boxLeft c.width
  let top := boxTop c.height
  let field := fieldLength c.width
  let shown := (e.chars.take (e.windowEnd field)).drop (e.windowStart field)
  ((c.box left top (boxWidth c.width) 3 boxStyle).write (left + 2) (top + 1) (ofString ":") boxStyle 1
    ).write (left + 4) (top + 1) (ofChars shown) boxStyle (fieldWidth (boxWidth c.width) 1)

variable {s : Session} {slots : List Viewer.Slot} {c : Canvas} {v : Viewer}

theorem paintBox_eq (hslots : s.viewer.slots s.terminal.width = .ok slots)
    (hpicture : Viewer.picture slots s.terminal.width s.terminal.height s.viewer = some (c, v))
    (e : InputLine) : (paintBox (ofString ":") e).run s = some (.ok (), ⟨v, { s.terminal with
      frames := ⟨boxed c e, some (boxLeft c.width + 4 + Int64.ofNat e.caret -
        Int64.ofNat (e.windowStart (fieldLength c.width)), boxTop c.height + 1)⟩ ::
          ⟨c, none⟩ :: s.terminal.frames }⟩) := by
  have hprompt : (ofString ":").chars.length = 1 := by decide
  have hfield (left : Int64) : left + 2 + Int64.ofNat 1 + 1 = left + 4 := by
    rw [Int64.add_assoc, Int64.add_assoc]
    rfl
  refine (bind_apply_of_some (m := paint.run) (paint_eq hslots hpicture)).trans ?_
  simp only [boxed, ← InputLine.window_eq, hprompt, hfield]
  rfl

/-- The prompt can be drawn wherever the sheet can be drawn, on a canvas of the size of the
screen. -/
theorem exists_paintBox (hon : s.viewer.sheet.detectsCycles = true)
    (hcorner : 0 ≤ s.viewer.corner.col.toInt) (e : InputLine) :
    ∃ c t, c.width = s.terminal.width ∧ c.height = s.terminal.height ∧
      (paintBox (ofString ":") e).run s = some (.ok (), t) ∧
      t.terminal.frames = ⟨boxed c e, some (boxLeft c.width + 4 + Int64.ofNat e.caret -
        Int64.ofNat (e.windowStart (fieldLength c.width)), boxTop c.height + 1)⟩ ::
          ⟨c, none⟩ :: s.terminal.frames := by
  obtain ⟨slots, hslots⟩ : ∃ slots, s.viewer.slots s.terminal.width = .ok slots :=
    ⟨_, by rw [Viewer.slots, if_neg (not_neg_of_toInt hcorner)]⟩
  obtain ⟨c, v, hpicture, -⟩ := Viewer.keeps_picture Viewer.Redrawn.exists_compute slots
    s.terminal.width s.terminal.height s.viewer ⟨rfl, hon, .refl _⟩
  have hsize := Viewer.ensures_picture slots s.terminal.width s.terminal.height _ _ _ hpicture
  exact ⟨c, _, hsize.width, hsize.height, paintBox_eq hslots hpicture e, rfl⟩

/-- A caret in its window is inside the box. -/
theorem caret_inside (screen : Int64) {e : InputLine} {x : Int64}
    (hx : x = boxLeft screen + 4 + Int64.ofNat e.caret -
      Int64.ofNat (e.windowStart (fieldLength screen))) :
    (boxLeft screen).toInt < x.toInt ∧
      x.toInt < (boxLeft screen).toInt + (boxWidth screen).toInt - 1 := by
  obtain ⟨hlower, hupper⟩ := toInt_half_bounds (screen - boxWidth screen)
  have hbox := boxWidth_bounds screen
  have hfield := fieldLength_eq screen
  have hstart : e.windowStart (fieldLength screen) ≤ e.caret := Nat.sub_le _ _
  have hshown : e.caret - e.windowStart (fieldLength screen) ≤ fieldLength screen := by
    rw [InputLine.windowStart]
    omega
  have hfour : (4 : Int64).toInt = 4 := rfl
  have hleft : (boxLeft screen + 4).toInt = (boxLeft screen).toInt + 4 := by
    rw [toInt_add_eq] <;> rw [hfour] <;> rw [boxLeft] <;> omega
  rw [hx, toInt_add_ofNat_sub hstart, hleft]
  · omega
  · rw [hleft, boxLeft]
    omega

theorem toInt_boxTop_add_one (screen : Int64) :
    (boxTop screen + 1).toInt = (boxTop screen).toInt + 1 := by
  obtain ⟨-, hupper⟩ := toInt_half_bounds (screen - 3)
  exact toInt_add_one (by rw [boxTop]; omega)

end Session

namespace InputLine

open Session Text

/-- Keys edit a line like a gap buffer, and characters are added exactly as long as there are fewer
than 4096. What shows of the line is a part of it around the caret, in a field of any width; and on
a screen of any size the text cursor stands inside the box that is drawn for the prompt. -/
theorem pressAll_ofText (initial : Text) (keys : List KeyEvent) {e : InputLine}
    (he : (ofText initial).pressAll keys = e) :
    (∃ g, (GapBuffer.ofChars initial.chars).pressAll keys = g ∧
      e = ⟨g.before ++ g.after, g.before.length⟩) ∧
    (∀ c ctrl, (e.press ⟨.char c, ctrl⟩).1 = e ↔ 4096 ≤ e.chars.length) ∧
    (∀ field, e.windowStart field ≤ e.windowEnd field ∧ e.windowEnd field ≤ e.chars.length ∧
      e.windowStart field ≤ e.caret ∧ e.caret ≤ e.windowStart field + field) ∧
    ∀ s : Session, s.viewer.sheet.detectsCycles = true → 0 ≤ s.viewer.corner.col.toInt →
      ∃ c t x y, c.width = s.terminal.width ∧ c.height = s.terminal.height ∧
        (paintBox (ofString ":") e).run s = some (.ok (), t) ∧
        t.terminal.frames = ⟨boxed c e, some (x, y)⟩ :: ⟨c, none⟩ :: s.terminal.frames ∧
        ((boxLeft c.width).toInt < x.toInt ∧
          x.toInt < (boxLeft c.width).toInt + (boxWidth c.width).toInt - 1) ∧
        (boxTop c.height).toInt < y.toInt ∧ y.toInt < (boxTop c.height).toInt + 2 := by
  have hline : e = ((GapBuffer.ofChars initial.chars).pressAll keys).line := by
    rw [← he, ofText_eq, pressAll_line]
  have hcaret : e.caret ≤ e.chars.length := by
    rw [hline, GapBuffer.line, List.length_append]
    exact Nat.le_add_right _ _
  refine ⟨⟨_, rfl, hline⟩, fun c _ => e.insert_eq_self_iff c, fun field => ?_, ?_⟩
  · refine ⟨e.windowStart_le_windowEnd field hcaret, Nat.min_le_left _ _, Nat.sub_le _ _, ?_⟩
    rw [windowStart]
    omega
  · intro s hon hcorner
    obtain ⟨c, t, hwidth, hheight, hrun, hframes⟩ := exists_paintBox hon hcorner e
    have hy := toInt_boxTop_add_one c.height
    exact ⟨c, t, _, _, hwidth, hheight, hrun, hframes, caret_inside c.width rfl, by omega, by omega⟩

/-- Edits near the end of a line that is much longer than its field. The box is wider than the
screen. -/
theorem pressAll_ofText_scrolled :
    let e : InputLine := ⟨List.replicate 69 '7' ++ ['x'], 69⟩
    let s : Session := ⟨.ofSheet { detectsCycles := true } 12 false, { width := 20, height := 5 }⟩
    (ofText (List.replicate 70 55)).pressAll
      [⟨.char 'x', false⟩, ⟨.left, false⟩, ⟨.backspace, false⟩] = e ∧
    e.windowStart (fieldLength 20) = 51 ∧ boxLeft 20 = -2 ∧ boxWidth 20 = 24 ∧
    ∃ c t x y, (paintBox (ofString ":") e).run s = some (.ok (), t) ∧
      t.terminal.frames = [⟨boxed c e, some (x, y)⟩, ⟨c, none⟩] ∧ -2 < x.toInt ∧ x.toInt < 21 := by
  intro e s
  have he : (ofText (List.replicate 70 55)).pressAll
      [⟨.char 'x', false⟩, ⟨.left, false⟩, ⟨.backspace, false⟩] = e := by decide +kernel
  obtain ⟨-, -, -, hpaint⟩ := pressAll_ofText _ _ he
  obtain ⟨c, t, x, y, hwidth, -, hrun, hframes, hx, -⟩ := hpaint s rfl (by decide)
  rw [hwidth, show (boxLeft s.terminal.width).toInt = -2 by decide,
    show (boxWidth s.terminal.width).toInt = 24 by decide] at hx
  exact ⟨he, by decide, by decide, by decide, c, t, x, y, hrun, hframes, hx⟩

end InputLine

end Spreadsheet
