import Spreadsheet.Text

/-! # Characters of a text

A text reads as a sequence of glyphs: well-formed UTF-8 characters, and stray bytes that
start none. A stray byte stands alone, and shows as U+FFFD.
-/
namespace Spreadsheet

inductive Glyph where
  | char (c : Char)
  | stray (b : UInt8)
  deriving DecidableEq, Repr

namespace Glyph

def replacement : Char := '\uFFFD'

def toChar : Glyph → Char
  | .char c => c
  | .stray _ => replacement

def bytes : Glyph → Text
  | .char c => String.utf8EncodeChar c
  | .stray b => [b]

end Glyph

namespace Text

/-- The payload of a continuation byte. -/
def continuation? (b : UInt8) : Option Nat :=
  if 0x80 ≤ b ∧ b < 0xC0 then some (b.toNat - 0x80) else none

def scalar? (n : Nat) : Option Char :=
  if n.isValidChar then some (Char.ofNat n) else none

/-- The character that starts a text, with the number of bytes it takes after its first. Overlong
forms, surrogates and numbers above U+10FFFF are no characters. -/
def leading : Text → Option (Char × Nat)
  | [] => none
  | b :: r =>
    if b < 0x80 then (scalar? b.toNat).map (·, 0)
    else if b < 0xE0 then
      match r with
      | b₁ :: _ => do
        let p₁ ← continuation? b₁
        let n := (b.toNat - 0xC0) * 0x40 + p₁
        if b < 0xC2 then none else (scalar? n).map (·, 1)
      | _ => none
    else if b < 0xF0 then
      match r with
      | b₁ :: b₂ :: _ => do
        let p₁ ← continuation? b₁
        let p₂ ← continuation? b₂
        let n := ((b.toNat - 0xE0) * 0x40 + p₁) * 0x40 + p₂
        if n < 0x800 then none else (scalar? n).map (·, 2)
      | _ => none
    else if b < 0xF8 then
      match r with
      | b₁ :: b₂ :: b₃ :: _ => do
        let p₁ ← continuation? b₁
        let p₂ ← continuation? b₂
        let p₃ ← continuation? b₃
        let n := (((b.toNat - 0xF0) * 0x40 + p₁) * 0x40 + p₂) * 0x40 + p₃
        if n < 0x10000 then none else (scalar? n).map (·, 3)
      | _ => none
    else none

/-- Reads glyphs after leaving out the first `skip` bytes, which belong to a glyph already read. -/
def glyphsFrom : (skip : Nat) → Text → List Glyph
  | _, [] => []
  | k + 1, _ :: r => glyphsFrom k r
  | 0, b :: r =>
    match leading (b :: r) with
    | some (c, k) => .char c :: glyphsFrom k r
    | none => .stray b :: glyphsFrom 0 r

def glyphs (t : Text) : List Glyph := glyphsFrom 0 t

def chars (t : Text) : List Char := t.glyphs.map Glyph.toChar

def ofGlyphs (gs : List Glyph) : Text := gs.flatMap Glyph.bytes

def ofChars (cs : List Char) : Text := cs.flatMap String.utf8EncodeChar

/-- The characters of a text that has no stray byte. -/
def chars? (t : Text) : Option (List Char) :=
  t.glyphs.mapM fun
    | .char c => some c
    | .stray _ => none

end Text
end Spreadsheet
