import Spreadsheet.Text.Utf8

/-! # Scanners

A scanner tells how many bytes of a word stand at the start of a text; zero means that no word does.
-/
namespace Spreadsheet.Scan

def run (p : UInt8 → Bool) (t : Text) : Nat := (t.takeWhile p).length

def signedDigits : Text → Nat
  | [] => 0
  | b :: r =>
    if b = Text.byte '-' then
      match run Text.isDigit r with
      | 0 => 0
      | n + 1 => n + 2
    else run Text.isDigit (b :: r)

def literal (word : Text) (t : Text) : Nat := if word.isPrefixOf t then word.length else 0

/-- The number of bytes of glyphs that show as the given characters, if a sequence starts with
such. -/
def spelledBytes : List Char → List Glyph → Option Nat
  | [], _ => some 0
  | _ :: _, [] => none
  | c :: cs, g :: gs =>
    if g.toChar = c then (spelledBytes cs gs).map (g.bytes.length + ·) else none

/-- A word given by its characters; a stray byte passes for the character that it shows as. -/
def spelled (word : List Char) (t : Text) : Nat := (spelledBytes word t.glyphs).getD 0

/-- A word any number of times in a row, looked for again after `skip` bytes of one already
found. -/
def repeatedFrom (word : Text) : (skip : Nat) → Text → Nat
  | _, [] => 0
  | k + 1, _ :: r => repeatedFrom word k r + 1
  | 0, b :: r =>
    match literal word (b :: r) with
    | 0 => 0
    | k + 1 => repeatedFrom word k r + 1

def repeated (word : Text) (t : Text) : Nat := repeatedFrom word 0 t

def firstOf : List Text → Text → Nat
  | [], _ => 0
  | w :: ws, t =>
    match literal w t with
    | 0 => firstOf ws t
    | n + 1 => n + 1

def one (p : UInt8 → Bool) : Text → Nat
  | [] => 0
  | b :: _ => if p b then 1 else 0

def anyGlyph : Text → Nat
  | [] => 0
  | b :: r =>
    if b = Text.newline then 0
    else
      match Text.leading (b :: r) with
      | some (_, k) => k + 1
      | none => 1

end Spreadsheet.Scan
