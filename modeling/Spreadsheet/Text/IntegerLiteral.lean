import Spreadsheet.Text.Decimal

/-! # Integer literals

A literal is decimal, or binary, octal or hexadecimal after `0b`, `0o` or `0` and `0x`. Underscores
may stand between digits and after the mark of the base.
-/
namespace Spreadsheet.IntegerLiteral

def toLower (b : UInt8) : UInt8 := if Text.isUpper b then b + 0x20 else b

def digit? (b : UInt8) : Option Nat :=
  let c := toLower b
  if Text.isDigit c then some (c.toNat - 0x30)
  else if Text.isLower c then some (c.toNat - 0x57)
  else none

def base : Text → Nat × Text
  | z :: m :: d :: r =>
    if z = Text.byte '0' then
      if toLower m = Text.byte 'b' then (2, d :: r)
      else if toLower m = Text.byte 'o' then (8, d :: r)
      else if toLower m = Text.byte 'x' then (16, d :: r)
      else (8, m :: d :: r)
    else (10, z :: m :: d :: r)
  | z :: r => if z = Text.byte '0' then (8, r) else (10, z :: r)
  | [] => (10, [])

/-- Reads digits after those that denote `n`, up to 64 bits. -/
def digitsValue (radix : Nat) (n : Nat) : Text → Except Decimal.Fault Nat
  | [] => .ok n
  | b :: r =>
    if b = Text.byte '_' then digitsValue radix n r
    else
      match digit? b with
      | none => .error .malformed
      | some d =>
        if radix ≤ d then .error .malformed
        else if 2 * Decimal.bound ≤ radix * n + d then .error .outOfRange
        else digitsValue radix (radix * n + d) r

/-- Each underscore stands after a digit or the mark of the base, and before a digit. -/
def underscoresFit (afterDigit : Bool) : Text → Bool
  | [] => true
  | b :: r =>
    if b = Text.byte '_' then
      match r with
      | [] => false
      | d :: _ => afterDigit && d != Text.byte '_' && underscoresFit false r
    else underscoresFit true r

def unsigned (t : Text) : Except Decimal.Fault Nat :=
  let (radix, digits) := base t
  match digitsValue radix 0 digits with
  | .ok n => if underscoresFit (digits.length < t.length) digits then .ok n else .error .malformed
  | .error e => .error e

def signed (negative : Bool) (t : Text) : Except Decimal.Fault Int64 := do
  if t.isEmpty then .error .malformed
  Decimal.ofMagnitude negative (← unsigned t)

def read : Text → Except Decimal.Fault Int64
  | [] => .error .malformed
  | b :: r =>
    if b = Text.byte '-' then signed true r
    else if b = Text.byte '+' then signed false r
    else signed false (b :: r)

end Spreadsheet.IntegerLiteral
