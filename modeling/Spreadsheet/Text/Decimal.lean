import Spreadsheet.Text

/-! # Decimal numbers

Integers of 64 bits, written with a minus sign where needed and no leading zeros, and read with an
optional sign and any number of leading zeros.
-/
namespace Spreadsheet.Decimal

def ofNat (n : Nat) : Text := (Nat.toDigits 10 n).map Text.byte

def ofInt : Int → Text
  | .ofNat n => ofNat n
  | .negSucc n => Text.byte '-' :: ofNat (n + 1)

def ofInt64 (i : Int64) : Text := ofInt i.toInt

def digitsValue (ds : Text) : Nat := ds.foldl (fun n b => 10 * n + (b.toNat - 0x30)) 0

inductive Fault where
  | malformed
  | outOfRange
  deriving DecidableEq, Repr

/-- Numbers below this bound are 64-bit integers, and so are their negatives and that of the
bound. -/
def bound : Nat := 0x8000000000000000

def ofMagnitude (negative : Bool) (n : Nat) : Except Fault Int64 :=
  if negative then
    if n ≤ bound then .ok (Int64.ofInt (-(n : Int))) else .error .outOfRange
  else if n < bound then .ok (Int64.ofInt n) else .error .outOfRange

def ofDigits (negative : Bool) (ds : Text) : Except Fault Int64 :=
  if ds.isEmpty || !ds.all Text.isDigit then .error .malformed
  else ofMagnitude negative (digitsValue ds)

def read (t : Text) : Except Fault Int64 :=
  match t with
  | [] => .error .malformed
  | b :: r =>
    if b = Text.byte '-' then ofDigits true r
    else if b = Text.byte '+' then ofDigits false r
    else ofDigits false t

end Spreadsheet.Decimal
