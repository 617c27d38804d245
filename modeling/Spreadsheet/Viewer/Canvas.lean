import Spreadsheet.Text.Utf8

/-! # The canvas

A rectangle of characters, each with its colours. Writing outside of it has no effect.
-/
namespace Spreadsheet

inductive Color where
  | standard
  | reset
  | yellow
  | black
  | white
  | gray
  | lightGray
  deriving DecidableEq, Repr

structure Style where
  foreground : Color := .standard
  background : Color := .standard
  deriving DecidableEq, Repr

structure Canvas where
  width : Int64
  height : Int64
  cells : Array (Char × Style)

namespace Canvas

def blank (width height : Int64) : Canvas :=
  ⟨width, height, Array.replicate (width.toInt.toNat * height.toInt.toNat) (' ', {})⟩

def contains (c : Canvas) (x y : Int64) : Bool := 0 ≤ x && x < c.width && 0 ≤ y && y < c.height

def index (c : Canvas) (x y : Int64) : Nat :=
  y.toInt.toNat * c.width.toInt.toNat + x.toInt.toNat

def get (c : Canvas) (x y : Int64) : Char × Style := c.cells[c.index x y]?.getD (' ', {})

def set (c : Canvas) (x y : Int64) (ch : Char) (style : Style) : Canvas :=
  if c.contains x y then { c with cells := c.cells.setIfInBounds (c.index x y) (ch, style) } else c

/-- Writes characters from left to right into a field of `count` columns, padded with spaces. -/
def fillChars (c : Canvas) (x y : Int64) (style : Style) : (count : Nat) → List Char → Canvas
  | 0, _ => c
  | n + 1, [] => fillChars (c.set x y ' ' style) (x + 1) y style n []
  | n + 1, ch :: chs => fillChars (c.set x y ch style) (x + 1) y style n chs

/-- Writes a text into a field, cut or padded to its width. -/
def write (c : Canvas) (x y : Int64) (t : Text) (style : Style) (width : Int64) : Canvas :=
  c.fillChars x y style width.toInt.toNat t.chars

def horizontal (c : Canvas) (x y : Int64) (ch : Char) (style : Style) (length : Int64) : Canvas :=
  c.fillChars x y style length.toInt.toNat (List.replicate length.toInt.toNat ch)

def downwards (step : Canvas → Int64 → Canvas) (c : Canvas) (y : Int64) : (count : Nat) → Canvas
  | 0 => c
  | n + 1 => downwards step (step c y) (y + 1) n

def box (c : Canvas) (left top width height : Int64) (style : Style) : Canvas :=
  let right := left + width - 1
  let bottom := top + height - 1
  let rows := height.toInt.toNat
  let c := downwards (fun c y => c.horizontal left y ' ' style width) c top rows
  let c := c.horizontal left top '─' style width
  let c := c.horizontal left bottom '─' style width
  let c := downwards (fun c y => (c.set left y '│' style).set right y '│' style) c top rows
  let c := c.set left top '┌' style
  let c := c.set right top '┐' style
  let c := c.set left bottom '└' style
  c.set right bottom '┘' style

end Canvas
end Spreadsheet
