import Spreadsheet.Text.Utf8

/-! # Blanks

A blank is a character with the Unicode property White_Space. Trimming works on the bytes: UTF-8
is self-synchronising, so a text ends in a blank exactly if it ends in the bytes of one.
-/
namespace Spreadsheet

def Glyph.isBlank : Glyph → Bool
  | .stray _ => false
  | .char c =>
    let n := c.toNat
    (0x09 ≤ n && n ≤ 0x0D) || n == 0x20 || n == 0x85 || n == 0xA0 || n == 0x1680
      || (0x2000 ≤ n && n ≤ 0x200A) || n == 0x2028 || n == 0x2029 || n == 0x202F
      || n == 0x205F || n == 0x3000

namespace Text

def blanks : List Text :=
  [[0x20], [0x0A], [0x09], [0x0D], [0x0B], [0x0C], [0xC2, 0x85], [0xC2, 0xA0],
    [0xE1, 0x9A, 0x80], [0xE2, 0x80, 0x80], [0xE2, 0x80, 0x81], [0xE2, 0x80, 0x82],
    [0xE2, 0x80, 0x83], [0xE2, 0x80, 0x84], [0xE2, 0x80, 0x85], [0xE2, 0x80, 0x86],
    [0xE2, 0x80, 0x87], [0xE2, 0x80, 0x88], [0xE2, 0x80, 0x89], [0xE2, 0x80, 0x8A],
    [0xE2, 0x80, 0xA8], [0xE2, 0x80, 0xA9], [0xE2, 0x80, 0xAF], [0xE2, 0x81, 0x9F],
    [0xE3, 0x80, 0x80]]

/-- The number of bytes of the word of `ws` that starts a text, zero if none does. -/
def startWidth (ws : List Text) (t : Text) : Nat :=
  match ws.find? (·.isPrefixOf t) with
  | some w => w.length
  | none => 0

/-- Drops the words of `ws` that start a text, after `skip` bytes of one already found. -/
def dropWords (ws : List Text) : (skip : Nat) → Text → Text
  | _, [] => []
  | k + 1, _ :: r => dropWords ws k r
  | 0, b :: r =>
    match startWidth ws (b :: r) with
    | 0 => b :: r
    | k + 1 => dropWords ws k r

def trimStart (t : Text) : Text := dropWords blanks 0 t

/-- Every blank takes at most three bytes. -/
def endsBlank : Text → Bool
  | [] => false
  | b :: r =>
    (match r with
      | [] | [_] | [_, _] => blanks.contains (b :: r)
      | _ => false) || endsBlank r

def trimEnd (t : Text) : Text :=
  if endsBlank t then (dropWords (blanks.map List.reverse) 0 t.reverse).reverse else t

def trim (t : Text) : Text := trimEnd (trimStart t)

def isBlank (t : Text) : Bool := (trimStart t).isEmpty

/-- The maximal runs of glyphs without blanks. -/
def wordsOf : List Glyph → List (List Glyph)
  | [] => []
  | g :: gs =>
    if g.isBlank then wordsOf gs
    else
      match gs, wordsOf gs with
      | [], _ => [[g]]
      | _, [] => [[g]]
      | next :: _, w :: ws => if next.isBlank then [g] :: w :: ws else (g :: w) :: ws

def words (t : Text) : List (List Glyph) := wordsOf t.glyphs

end Text
end Spreadsheet
