import Spreadsheet.Text.Blank

/-! # Grammars

A grammar gives every symbol a rule: nothing at all, a token, an ordered choice of sequences, or a
body that is read under a changed environment. Parsing threads an environment of type `E` through
all rules and hangs an attribute of type `A` on every node of the tree.
-/
namespace Spreadsheet

/-- What may change an environment and may not end; `none` says that it does not. -/
abbrev Computation (E α : Type) := StateT E Option α

/-- A node of a parse tree. Tokens and the empty rule choose no alternative. -/
structure Node (ι A : Type) where
  symbol : ι
  alternative : Option Nat
  text : Text
  children : List (Node ι A)
  attr : A
  isEpsilon : Bool

namespace Node

variable {ι A : Type} [Inhabited A]

def epsilon (symbol : ι) : Node ι A := ⟨symbol, none, [], [], default, true⟩

def token (symbol : ι) (text : Text) (attr : A) : Node ι A :=
  ⟨symbol, none, text, [], attr, false⟩

def joinedText : List (Node ι A) → Text
  | [] => []
  | n :: ns => if n.isEpsilon then joinedText ns else n.text ++ joinedText ns

def childAttr (n : Node ι A) (i : Nat) : A :=
  match n.children[i]? with
  | some c => c.attr
  | none => default

def childText (n : Node ι A) (i : Nat) : Text :=
  match n.children[i]? with
  | some c => c.text
  | none => []

end Node

/-- A token is a non-empty word at the start of the input, blanks aside if it skips them. `scan`
tells how many bytes the word has, and `interpret` may still refuse it. -/
structure Token (A : Type) where
  name : Text
  skipsBlanks : Bool
  scan : Text → Nat
  interpret : Text → Option A

/-- Skipping takes blanks from both ends of the input. -/
def Token.read {A : Type} (t : Token A) (input : Text) : Option (Text × A × Text) :=
  let input := if t.skipsBlanks then input.trim else input
  let word := input.take (t.scan input)
  if word.isEmpty then none
  else (t.interpret word).map fun a => (word, a, input.drop word.length)

/-- An action sees the node of the alternative that matched. It gives the node's attribute, or
refuses the match; what it did to the environment stays done either way. -/
abbrev Action (ι E A : Type) := Node ι A → Computation E (Option A)

structure Production (ι E A : Type) where
  name : Text
  alternatives : List (List ι)
  action : Option (Action ι E A) := none

/-- Reads `target` only to learn how to change the environment, then `body` in its place. -/
structure Scope (ι E A : Type) where
  name : Text
  target : ι
  body : ι
  enter : Node ι A → E → Option E
  leave : (outer inner : E) → E

inductive Rule (ι E A : Type) where
  | epsilon
  | token (t : Token A)
  | production (p : Production ι E A)
  | scope (s : Scope ι E A)

namespace Rule

variable {ι E A : Type}

def name : Rule ι E A → Text
  | .epsilon => Text.ofString "ε"
  | .token t => t.name
  | .production p => p.name
  | .scope s => s.name

def isEpsilon : Rule ι E A → Bool
  | .epsilon => true
  | _ => false

end Rule

/-- A grammar over the symbols `ι`, of which it uses at most `size`. -/
structure Grammar (ι E A : Type) where
  size : Nat
  rule : ι → Rule ι E A

end Spreadsheet
