import Spreadsheet.Viewer.InputBox

/-! # Controlling the viewer -/
namespace Spreadsheet

namespace Viewer

def currentWidth (v : Viewer) : Except IndexFault Int64 :=
  let fault : IndexFault := ⟨v.cursor.col, v.widths.size⟩
  if v.cursor.col < 0 then .error fault
  else
    match v.widths[v.cursor.col.toInt.toNat]? with
    | some w => .ok w
    | none => .error fault

def setCurrentWidth (v : Viewer) (w : Int64) : Viewer :=
  { v with widths := v.widths.setIfInBounds v.cursor.col.toInt.toNat w }

/-- Makes the column at the cursor narrower, down to the smallest width. -/
def narrow (v : Viewer) : Except IndexFault Viewer := do
  let w ← v.currentWidth
  return if minimumWidth < w then v.setCurrentWidth (w - 1) else v

def widen (v : Viewer) : Except IndexFault Viewer := do
  let w ← v.currentWidth
  return v.setCurrentWidth (w + 1)

def moveTo (v : Viewer) (r : Ref) : Viewer := { v with cursor := r }

def moveUp (v : Viewer) : Viewer :=
  if 0 < v.cursor.row then v.moveTo ⟨v.cursor.row - 1, v.cursor.col⟩ else v

def moveDown (v : Viewer) : Viewer :=
  (v.moveTo ⟨v.cursor.row + 1, v.cursor.col⟩).reachRow (v.cursor.row + 1)

def moveLeft (v : Viewer) : Viewer :=
  if 0 < v.cursor.col then v.moveTo ⟨v.cursor.row, v.cursor.col - 1⟩ else v

def moveRight (v : Viewer) : Viewer :=
  (v.moveTo ⟨v.cursor.row, v.cursor.col + 1⟩).reachColumn (v.cursor.col + 1)

def pageUp (v : Viewer) (rows : Int64) : Viewer :=
  { v with
    corner := ⟨max 0 (v.corner.row - rows), v.corner.col⟩
    cursor := ⟨max 0 (v.cursor.row - rows), v.cursor.col⟩ }

def pageDown (v : Viewer) (rows : Int64) : Viewer :=
  { v with
    corner := ⟨v.corner.row + rows, v.corner.col⟩
    cursor := ⟨v.cursor.row + rows, v.cursor.col⟩ }.reachRow (v.cursor.row + rows)

def moveToEnd (v : Viewer) : Viewer :=
  let (row, col) := v.sheet.cells.extent
  v.moveTo ⟨max 0 row, max 0 col⟩

end Viewer

namespace Session

open Viewer

def attempt (f : Viewer → Except IndexFault Viewer) : Interaction Unit := do
  let v ← orFail (f (← getViewer))
  update fun _ => v

def shownRowCount : Interaction Int64 := do
  let t ← getTerminal
  return (← orFail ((← getViewer).capacity t.width t.height)).1

/-- Offers the assignment of the cell at the cursor for editing, and runs what comes of it. -/
def askStatement : Interaction Unit := do
  let v ← getViewer
  match ← askLine (Text.ofString ":") (v.assignmentText v.cursor) with
  | some src => onViewer (runStatement src)
  | none => pure ()

/-- Applies one key. While the help shows, keys only close it. -/
def press (k : KeyEvent) : Interaction Unit := do
  if (← getViewer).showsHelp then
    if k.key = .escape ∨ k.key = .char '?' then update fun v => { v with showsHelp := false }
  else
    match k.key with
    | .ctrlC => update fun v => { v with isDone := true }
    | .escape => update fun v => { v with message := [] }
    | .up => update moveUp
    | .down => update moveDown
    | .left => if k.ctrl then attempt narrow else update moveLeft
    | .right => if k.ctrl then attempt widen else update moveRight
    | .pageUp =>
      let rows ← shownRowCount
      update fun v => v.pageUp rows
    | .pageDown =>
      let rows ← shownRowCount
      update fun v => v.pageDown rows
    | .home => update fun v => v.moveTo ⟨0, 0⟩
    | .last => update moveToEnd
    | .char 'q' => update fun v => { v with isDone := true }
    | .char 'e' => update fun v => { v with showsExpressions := !v.showsExpressions }
    | .char '?' => update fun v => { v with showsHelp := true }
    | .char ':' => askStatement
    | _ => pure ()

def scrollToCursor : Interaction Unit := do
  let t ← getTerminal
  attempt fun v => v.scrollToCursor t.width t.height

/-- Shows the sheet and handles inputs until the user quits or no input is left. -/
def interactWithin : (steps : Nat) → Interaction Unit
  | 0 => pure ()
  | steps + 1 => do
    unless (← getViewer).isDone do
      scrollToCursor
      let _ ← paint
      match (← getTerminal).pending with
      | [] => pure ()
      | input :: pending =>
        updateTerminal fun t => { t with pending }
        match input with
        | .key k => press k
        | .resize width height => resize width height
        | .other => pure ()
        interactWithin steps

/-- Every step but the last takes at least one input. -/
def interact : Interaction Unit := do
  interactWithin ((← getTerminal).pending.length + 1)

end Session
end Spreadsheet
