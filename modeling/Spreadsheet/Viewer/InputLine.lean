import Spreadsheet.Text.Utf8
import Spreadsheet.Viewer.Key

/-! # The input line

A single line of characters with a caret between them.
-/
namespace Spreadsheet

structure InputLine where
  chars : List Char
  caret : Nat
  deriving DecidableEq, Repr

namespace InputLine

/-- Typing into a line of this many characters has no effect. -/
def capacity : Nat := 4096

inductive Status where
  | editing
  | accepted
  | cancelled
  deriving DecidableEq, Repr

/-- The caret starts at the end of the text. -/
def ofText (t : Text) : InputLine := ⟨t.chars, t.chars.length⟩

def text (e : InputLine) : Text := Text.ofChars e.chars

def before (e : InputLine) : List Char := e.chars.take e.caret

def after (e : InputLine) : List Char := e.chars.drop e.caret

def eraseBefore (e : InputLine) : InputLine :=
  if 0 < e.caret then ⟨e.chars.take (e.caret - 1) ++ e.after, e.caret - 1⟩ else e

def eraseAfter (e : InputLine) : InputLine :=
  if e.caret < e.chars.length then ⟨e.before ++ e.chars.drop (e.caret + 1), e.caret⟩ else e

def insert (e : InputLine) (c : Char) : InputLine :=
  if e.chars.length < capacity then ⟨e.before ++ c :: e.after, e.caret + 1⟩ else e

def press (e : InputLine) (k : KeyEvent) : InputLine × Status :=
  match k.key with
  | .escape => (e, .cancelled)
  | .enter => (e, .accepted)
  | .backspace | .rubout => (e.eraseBefore, .editing)
  | .delete => (e.eraseAfter, .editing)
  | .left => (⟨e.chars, e.caret - 1⟩, .editing)
  | .right => (if e.caret < e.chars.length then ⟨e.chars, e.caret + 1⟩ else e, .editing)
  | .home | .ctrlA => (⟨e.chars, 0⟩, .editing)
  | .last | .ctrlE => (⟨e.chars, e.chars.length⟩, .editing)
  | .ctrlU => (⟨[], 0⟩, .editing)
  | .char c => (e.insert c, .editing)
  | _ => (e, .editing)

end InputLine
end Spreadsheet
