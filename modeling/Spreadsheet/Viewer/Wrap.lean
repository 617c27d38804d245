import Spreadsheet.Text.Blank

/-! # Wrapping text into lines

Paragraphs end at newlines. Words are packed greedily; a word longer than a line is cut into full
lines, and a paragraph without words keeps its empty line.
-/
namespace Spreadsheet.Wrap

/-- Cuts a word into pieces of `width` glyphs, with stray bytes replaced; the last piece may be
shorter. -/
def pieces (width : Nat) (word : List Glyph) : List (List Glyph) :=
  if width < word.length ∧ 0 < width then
    (word.take width).map (.char ·.toChar) :: pieces width (word.drop width)
  else [word.map (.char ·.toChar)]
termination_by word.length
decreasing_by simp only [List.length_drop]; omega

/-- Fills lines with words, the first of them already holding `line`. -/
def pack (width : Nat) (line : List Glyph) : List (List Glyph) → List (List Glyph)
  | [] => if line.isEmpty then [] else [line]
  | word :: words =>
    if word.length ≤ width then
      if line.isEmpty then pack width word words
      else if line.length + 1 + word.length ≤ width then
        pack width (line ++ .char ' ' :: word) words
      else line :: pack width word words
    else
      let ps := pieces width word
      (if line.isEmpty then [] else [line]) ++ ps.dropLast
        ++ pack width (ps.getLast?.getD []) words

def paragraph (width : Nat) (t : Text) : List Text :=
  match t.words with
  | [] => [[]]
  | words => (pack width [] words).map Text.ofGlyphs

/-- Lines of at most `width` characters. Below three characters a text is left as it is. -/
def wrap (width : Int64) (t : Text) : List Text :=
  if width ≤ 2 then [t] else t.lines.flatMap (paragraph width.toInt.toNat)

end Spreadsheet.Wrap
