import Spreadsheet.Text.Quoted

/-! # Column labels

Columns are counted from zero and labelled A, B, ..., Z, AA, AB, ...: the label of column `c` is the
bijective base-26 numeral of `c + 1`.
-/
namespace Spreadsheet.Column

inductive Error where
  | empty
  | notLetters (label : Text)
  | overflow (label : Text)
  deriving DecidableEq, Repr

def Error.message : Error → Text
  | .empty => Text.ofString "invalid column label: empty"
  | .notLetters l => Text.ofString "invalid column label: " ++ Quoted.quote l
  | .overflow l =>
    Text.ofString "invalid column label: " ++ Quoted.quote l ++ Text.ofString " overflows"

/-- The bijective base-26 numeral of a number; zero has the empty one. -/
def numeral : Nat → Text
  | 0 => []
  | n + 1 => numeral (n / 26) ++ [(0x41 + n % 26).toUInt8]
  decreasing_by exact Nat.lt_succ_of_le (Nat.div_le_self n 26)

/-- A negative column has no label and shows as a question mark. The last column of all has the
empty label, because its successor wraps around. -/
def label (c : Int64) : Text :=
  if c < 0 then [Text.byte '?'] else numeral (c + 1).toInt.toNat

/-- The largest number that still takes one more letter without wrapping. -/
def limit : Int64 := (Int64.maxValue - 26) / 26

def readFrom (label : Text) (n : Int64) : Text → Except Error Int64
  | [] => .ok n
  | b :: r =>
    if !Text.isUpper b then .error (.notLetters label)
    else if limit < n then .error (.overflow label)
    else readFrom label (n * 26 + Int64.ofNat (b.toNat - 0x41) + 1) r

def ofLabel : Text → Except Error Int64
  | [] => .error .empty
  | b :: r => (readFrom (b :: r) 0 (b :: r)).map (· - 1)

end Spreadsheet.Column
