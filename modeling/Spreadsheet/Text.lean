/-! # Byte texts

Sources, expressions and messages are sequences of bytes. They are usually UTF-8, but
nothing in the language needs them to be, so a text is its bytes and characters are a view.
-/
namespace Spreadsheet

abbrev Text := List UInt8

namespace Text

def ofString (s : String) : Text := s.toUTF8.data.toList

def byte (c : Char) : UInt8 := c.toNat.toUInt8

def newline : UInt8 := 0x0A

def isUpper (b : UInt8) : Bool := 0x41 ≤ b && b ≤ 0x5A

def isLower (b : UInt8) : Bool := 0x61 ≤ b && b ≤ 0x7A

def isDigit (b : UInt8) : Bool := 0x30 ≤ b && b ≤ 0x39

/-- The pieces of a text between its newlines; there is always at least one. -/
def lines : Text → List Text
  | [] => [[]]
  | b :: r =>
    match lines r with
    | [] => [[b]]
    | l :: ls => if b = newline then [] :: l :: ls else (b :: l) :: ls

def joinWith (separator : Text) : List Text → Text
  | [] => []
  | [t] => t
  | t :: ts => t ++ separator ++ joinWith separator ts

end Text
end Spreadsheet
