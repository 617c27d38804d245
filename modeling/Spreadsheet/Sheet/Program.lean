import Spreadsheet.Sheet.Evaluation

/-! # Running programs

A program is executed while it is parsed: each statement takes effect when its text has matched.
-/
namespace Spreadsheet.Sheet

open Formula

/-- The cell that a text refers to, if a single reference is all of it. -/
def referredCell (t : Text) : Computation Sheet (Option Ref) := do
  match ← (grammar .inert).parse .cellReference t with
  | some (n, []) => pure n.attr.ref
  | _ => pure none

/-- Reports on an expression, or on the contents of the cell that it names. -/
def announce (kind : ReportKind) (expr : Tree) : Computation Sheet Unit := do
  let cell ← referredCell expr.text
  let shown : Cell ← match cell with
    | some r => compute r
    | none => pure ⟨expr.text, expr.attr.value⟩
  let text := match kind with
    | .value => shown.value.text
    | .expression => shown.expression
  modify (·.print ⟨kind, expr.text, cell, text⟩)

def effects : Effects := ⟨compute, announce⟩

def parse (symbol : Symbol) (context : Option Ref) (src : Text) :
    Computation Sheet (Option (Match Symbol Attribute)) := do
  let outer ← get
  set { outer with context := context.or outer.context }
  let result ← (grammar effects).parse symbol src
  modify fun inner => { inner with context := outer.context }
  pure result

/-- What is left of a source after its longest prefix that is a program. -/
structure Outcome where
  rest : Text
  accepted : Bool
  deriving DecidableEq, Repr

/-- Runs a source as a program, outside of any context, and gives the match. -/
def matchProgram (src : Text) : Computation Sheet (Option (Match Symbol Attribute)) := do
  let outer ← get
  set { outer with context := none }
  let result ← (grammar effects).parse .program src
  modify fun inner => { inner with context := outer.context }
  pure result

def execute (src : Text) : Computation Sheet Outcome := do
  match ← matchProgram src with
  | none => pure ⟨src, false⟩
  | some (n, rest) =>
    modify (·.note .debug (Text.ofString "executed " ++ Quoted.quote n.text))
    pure ⟨rest, true⟩

end Spreadsheet.Sheet
