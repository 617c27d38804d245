/-! # Keys

A key event is a named key, a control code or a typed character. Typed control characters count as
the control codes they are.
-/
namespace Spreadsheet

inductive Key where
  | up
  | down
  | left
  | right
  | pageUp
  | pageDown
  | home
  | last
  | delete
  | insert
  | function (number : Nat)
  | control (code : Nat)
  | char (c : Char)
  deriving DecidableEq, Repr

namespace Key

@[match_pattern] abbrev ctrlA : Key := .control 1
@[match_pattern] abbrev ctrlC : Key := .control 3
@[match_pattern] abbrev ctrlE : Key := .control 5
@[match_pattern] abbrev backspace : Key := .control 8
@[match_pattern] abbrev tab : Key := .control 9
@[match_pattern] abbrev enter : Key := .control 13
@[match_pattern] abbrev ctrlU : Key := .control 21
@[match_pattern] abbrev escape : Key := .control 27
@[match_pattern] abbrev rubout : Key := .control 127

end Key

structure KeyEvent where
  key : Key
  /-- Whether Ctrl was held. -/
  ctrl : Bool := false
  deriving DecidableEq, Repr

namespace KeyEvent

/-- A typed character. Control characters other than backspace, tab, enter and escape come from
Ctrl. -/
def typed (c : Char) : KeyEvent :=
  let n := c.toNat
  if n < 0x20 then ⟨.control n, !(n == 8 || n == 9 || n == 13 || n == 27)⟩
  else if n = 0x7F then ⟨.rubout, false⟩
  else ⟨.char c, false⟩

end KeyEvent
end Spreadsheet
