import Spreadsheet.Text

/-! # Output

An output collects what is written to it. It may take a limited number of writes; a write beyond
that fails and leaves no trace.
-/
namespace Spreadsheet

structure Output where
  /-- Newest first. -/
  pieces : List Text := []
  /-- How many writes are still accepted, if there is a limit. -/
  room : Option Nat := none
  deriving DecidableEq, Repr

namespace Output

def write (o : Output) (t : Text) : Option Output :=
  match o.room with
  | none => some { o with pieces := t :: o.pieces }
  | some 0 => none
  | some (n + 1) => some ⟨t :: o.pieces, some n⟩

def text (o : Output) : Text := o.pieces.reverse.flatten

def fault : Text := Text.ofString "writer full"

end Output
end Spreadsheet
