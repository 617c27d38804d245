import Spreadsheet.Viewer.Picture
import Spreadsheet.Viewer.InputLine

/-! # The input box

A box over the sheet in which a line is edited. The field shows the part of the line around the
caret.
-/
namespace Spreadsheet

namespace InputLine

def windowStart (e : InputLine) (field : Nat) : Nat := e.caret - field

def window (e : InputLine) (field : Nat) : List Char :=
  (e.chars.drop (e.windowStart field)).take field

end InputLine

namespace Session

def boxStyle : Style := { foreground := .white, background := .reset }

def boxWidth (screen : Int64) : Int64 := max 24 (min (screen - 4) 60)

def fieldWidth (box prompt : Int64) : Int64 := max 1 (box - 4 - prompt - 1)

/-- Draws the sheet, and then the box over it with the text cursor in it. -/
def paintBox (prompt : Text) (e : InputLine) : Interaction Unit := do
  let c ← paint
  let box := boxWidth c.width
  let left := (c.width - box) / 2
  let top := (c.height - 3) / 2
  let c := c.box left top box 3 boxStyle
  let x := left + 2
  let y := top + 1
  let promptWidth := Int64.ofNat prompt.chars.length
  let c := c.write x y prompt boxStyle promptWidth
  let x := x + promptWidth + 1
  let field := fieldWidth box promptWidth
  let start := e.windowStart field.toInt.toNat
  let c := c.write x y (Text.ofChars (e.window field.toInt.toNat)) boxStyle field
  present ⟨c, some (x + Int64.ofNat e.caret - Int64.ofNat start, y)⟩

/-- Takes one input after the other until the line is accepted, given up, or no input is left. -/
def editLine (prompt : Text) (e : InputLine) : List Input → Interaction (Option Text)
  | [] => pure none
  | input :: pending => do
    updateTerminal fun t => { t with pending }
    match input with
    | .key k =>
      match e.press k with
      | (e, .accepted) => pure (some e.text)
      | (_, .cancelled) => pure none
      | (e, .editing) =>
        paintBox prompt e
        editLine prompt e pending
    | .resize width height =>
      resize width height
      paintBox prompt e
      editLine prompt e pending
    | .other =>
      paintBox prompt e
      editLine prompt e pending

/-- Asks for a line of text; gives none if it was given up. -/
def askLine (prompt initial : Text) : Interaction (Option Text) := do
  let e := InputLine.ofText initial
  paintBox prompt e
  editLine prompt e (← getTerminal).pending

end Session
end Spreadsheet
