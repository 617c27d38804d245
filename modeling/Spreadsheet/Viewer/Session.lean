import Spreadsheet.Viewer.Canvas
import Spreadsheet.Viewer.Geometry
import Spreadsheet.Viewer.Key

/-! # Sessions

A viewer at a terminal. The terminal has a size, a queue of what the user does next, and the frames
shown so far.
-/
namespace Spreadsheet

inductive Input where
  | key (e : KeyEvent)
  | resize (width height : Int64)
  | other
  deriving DecidableEq, Repr

/-- A picture on the screen, with the text cursor if it shows. -/
structure Frame where
  canvas : Canvas
  cursor : Option (Int64 × Int64)

structure Terminal where
  width : Int64
  height : Int64
  pending : List Input := []
  /-- Newest first. -/
  frames : List Frame := []
  syncs : Nat := 0

structure Session where
  viewer : Viewer
  terminal : Terminal

/-- An action of a session may fail on a column that does not exist; what it did before stays
done. -/
abbrev Interaction (α : Type) := ExceptT IndexFault (StateT Session Option) α

namespace Session

def getViewer : Interaction Viewer := return (← get).viewer

def getTerminal : Interaction Terminal := return (← get).terminal

def update (f : Viewer → Viewer) : Interaction Unit :=
  modify fun s => { s with viewer := f s.viewer }

def updateTerminal (f : Terminal → Terminal) : Interaction Unit :=
  modify fun s => { s with terminal := f s.terminal }

def onViewer {α : Type} (c : Computation Viewer α) : Interaction α := ExceptT.mk fun s =>
  (c s.viewer).map fun (a, viewer) => (.ok a, { s with viewer })

def orFail {α : Type} : Except IndexFault α → Interaction α
  | .ok a => pure a
  | .error f => throw f

def present (f : Frame) : Interaction Unit := updateTerminal fun t => { t with frames := f :: t.frames }

/-- The screen takes a new size and is drawn from scratch. -/
def resize (width height : Int64) : Interaction Unit :=
  updateTerminal fun t => { t with width, height, syncs := t.syncs + 1 }

end Session
end Spreadsheet
