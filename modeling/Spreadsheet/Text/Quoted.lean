import Spreadsheet.Text.Printable

/-! # Quoted texts

A quoted text stands between double quotes on one line. Printable characters stand for themselves,
except that quotes and backslashes take a backslash; all else is escaped.
-/
namespace Spreadsheet.Quoted

/-- The last `width` hexadecimal digits of `n`, in lower case. -/
def hex : (width : Nat) → (n : Nat) → Text
  | 0, _ => []
  | w + 1, n => hex w (n / 16) ++ [Text.byte (Nat.digitChar (n % 16))]

def backslash : UInt8 := Text.byte '\\'

def controlLetter? (n : Nat) : Option Char :=
  match n with
  | 0x07 => some 'a'
  | 0x08 => some 'b'
  | 0x09 => some 't'
  | 0x0A => some 'n'
  | 0x0B => some 'v'
  | 0x0C => some 'f'
  | 0x0D => some 'r'
  | _ => none

def escape (n : Nat) : Text :=
  match controlLetter? n with
  | some c => [backslash, Text.byte c]
  | none =>
    if n < 0x20 || n == 0x7F then backslash :: Text.byte 'x' :: hex 2 n
    else if n < 0x10000 then backslash :: Text.byte 'u' :: hex 4 n
    else backslash :: Text.byte 'U' :: hex 8 n

def glyph : Glyph → Text
  | .stray b => backslash :: Text.byte 'x' :: hex 2 b.toNat
  | .char c =>
    if c = '"' || c = '\\' then [backslash, Text.byte c]
    else if Printable.isPrintable c then String.utf8EncodeChar c
    else escape c.toNat

def quote (t : Text) : Text :=
  [Text.byte '"'] ++ t.glyphs.flatMap glyph ++ [Text.byte '"']

end Spreadsheet.Quoted
