import Spreadsheet.Formula.Grammar
import Spreadsheet.Text.Quoted

/-! # Reading cells

A cell keeps the text of its expression, and every read parses that text again against the current
cells, with the cell itself as context. The fresh value is kept with the cell.
-/
namespace Spreadsheet.Sheet

open Formula

/-- What is shown of a cell found in its own computation: no value. -/
def cutCycle (s : Sheet) (r : Ref) (c : Cell) : Cell × Sheet :=
  ({ c with value := .empty },
    s.note .warning (Text.ofString "cycle through cell " ++ r.label))

def beginCell (s : Sheet) (r : Ref) : Sheet :=
  { s with
    context := some r
    evaluating := if s.detectsCycles then r :: s.evaluating else s.evaluating }

def endCell (outer inner : Sheet) : Sheet :=
  { inner with context := outer.context, evaluating := outer.evaluating }

def isBeingEvaluated (s : Sheet) (r : Ref) : Bool := s.detectsCycles && s.evaluating.contains r

/-- Computes a cell through at most `depth` stored cells that refer to one another. -/
def computeWithin (depth : Nat) (r : Ref) : Computation Sheet Cell := fun s =>
  match s.get? r with
  | none => some ({}, s)
  | some c =>
    if s.isBeingEvaluated r then some (s.cutCycle r c)
    else
      match depth with
      | 0 => none
      | depth + 1 =>
        let effects : Effects := { Effects.inert with compute := computeWithin depth }
        match (grammar effects).parse .expression c.expression (s.beginCell r) with
        | none => none
        | some (result, inner) =>
          let s := s.endCell inner
          match result with
          | none =>
            some (c, s.note .warning (Text.ofString "cannot re-parse expression "
              ++ Quoted.quote c.expression ++ Text.ofString " of cell " ++ r.label))
          | some (n, _) =>
            let c := { c with value := n.attr.value }
            some (c, s.put r c)

/-- Computes a cell afresh and keeps the value. A cell that was never written reads as empty and
is not made. A chain of references through more cells than are stored goes around in a cycle, so the
depth given is all that any computation which ends can use. -/
def compute (r : Ref) : Computation Sheet Cell := fun s => computeWithin s.cells.size r s

end Spreadsheet.Sheet
