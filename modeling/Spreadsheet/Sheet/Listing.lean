import Spreadsheet.Output
import Spreadsheet.Sheet.Program

/-! # Listings and printed reports -/
namespace Spreadsheet.Sheet

/-- Lists cells, each computed afresh just before it is written. Gives the cell at which writing
failed, if it did. -/
def listCells : List Ref → Output → Computation Sheet (Option Ref × Output)
  | [], out => pure (none, out)
  | r :: rs, out => do
    let c ← compute r
    match out.write (listing r c ++ [Text.newline]) with
    | some out => listCells rs out
    | none => pure (some r, out)

def list (out : Output) : Computation Sheet (Option Ref × Output) := do
  listCells (← get).cells.refs out

def listError (r : Ref) : Text :=
  Text.ofString "dump " ++ r.label ++ Text.ofString ": " ++ Output.fault

/-- Writes reports to an output, a line each, and keeps the log; a report that cannot be written is
logged as an error. -/
def deliver : List Event → Output → List Log.Entry × Output
  | [], out => ([], out)
  | .logged e :: events, out =>
    let (log, out) := deliver events out
    (e :: log, out)
  | .printed r _ :: events, out =>
    match out.write (r.line ++ [Text.newline]) with
    | some out => deliver events out
    | none =>
      let (log, out) := deliver events out
      (⟨.error, "sheetlang.calc", Text.ofString "print: " ++ Output.fault⟩ :: log, out)

end Spreadsheet.Sheet
