import Spreadsheet.Text.Decimal

/-! # Cell values

A cell holds nothing, a 64-bit integer or a text. Arithmetic is defined on integers alone, wraps at
64 bits, and gives the empty value for anything else.
-/
namespace Spreadsheet

inductive Value where
  | empty
  | int (i : Int64)
  | str (t : Text)
  deriving DecidableEq, Repr

namespace Value

instance : Inhabited Value := ⟨.empty⟩

def add : Value → Value → Value
  | .int a, .int b => .int (a + b)
  | _, _ => .empty

def mul : Value → Value → Value
  | .int a, .int b => .int (a * b)
  | _, _ => .empty

def text : Value → Text
  | .empty => []
  | .int i => Decimal.ofInt64 i
  | .str t => t

def isEmpty : Value → Bool
  | .empty => true
  | _ => false

def int? : Value → Option Int64
  | .int i => some i
  | _ => none

def str? : Value → Option Text
  | .str t => some t
  | _ => none

end Value

/-- The expression last assigned to a cell, with the value last computed from it. -/
structure Cell where
  expression : Text := []
  value : Value := .empty
  deriving DecidableEq, Repr

instance : Inhabited Cell := ⟨{}⟩

end Spreadsheet
