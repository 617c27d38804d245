import Spreadsheet.Sheet.Listing
import Spreadsheet.Source
import Spreadsheet.Viewer.Control

/-! # Running sources

All sources run in order on one sheet. A source that cannot be loaded, or of which something is
left, is reported and the others still run.
-/
namespace Spreadsheet.Command

inductive ScreenError where
  | creating (cause : Text)
  | starting (cause : Text)
  deriving DecidableEq, Repr

def ScreenError.message : ScreenError → Text
  | .creating cause => Text.ofString "cannot create screen: " ++ cause
  | .starting cause => Text.ofString "cannot init screen: " ++ cause

/-- There is no screen where no kind of terminal is set. -/
def ScreenError.noTerminal : ScreenError :=
  .creating (Text.ofString "terminal entry not found: term not set")

structure Display where
  screen : Except ScreenError Terminal := .error .noTerminal
  columnWidth : Int64 := 12
  showsExpressions : Bool := false

/-- Views a sheet until the user quits; gives why that was not possible, if it was not. -/
def Display.view (d : Display) (sheet : Sheet) :
    Option (Except IndexFault (Option ScreenError) × Sheet) :=
  match d.screen with
  | .error e => some (.ok (some e), sheet)
  | .ok terminal =>
    (Session.interact.run ⟨.ofSheet sheet d.columnWidth d.showsExpressions, terminal⟩).map
      fun (result, session) => (result.map fun _ => none, session.viewer.sheet)

structure Run where
  sheet : Sheet
  inputs : Inputs
  stdout : Output := {}
  stderr : Text := []
  /-- Newest first. -/
  log : List Log.Entry := []
  failed : Bool := false

namespace Run

def exitCode (r : Run) : Nat := if r.failed then 1 else 0

def note (r : Run) (level : Log.Level) (message : Text) : Run :=
  { r with log := ⟨level, "sheetlang", message⟩ :: r.log }

def complain (r : Run) (message : Text) : Run :=
  { r with stderr := r.stderr ++ message ++ [Text.newline], failed := true }

/-- Writes what was printed and keeps what was logged. -/
def settle (r : Run) : Run :=
  let (events, sheet) := r.sheet.takeJournal
  let (log, stdout) := Sheet.deliver events r.stdout
  { r with sheet, stdout, log := log.reverse ++ r.log }

def runText (r : Run) (t : Text) : Option Run :=
  (Sheet.execute t r.sheet).map fun (outcome, sheet) =>
    let r := { r with sheet }.settle
    let rest := outcome.rest.trim
    if rest.isEmpty then r
    else r.complain (Text.ofString "Parsing left remainder [" ++ rest ++ Text.ofString "].")

def runSource (r : Run) (name : Text) : Option Run :=
  let (loaded, inputs) := Source.load r.inputs name
  let r := { r with inputs }
  match loaded with
  | .error e =>
    some ((r.note .debug (Text.ofString "load: " ++ e.message)).complain
      (Text.ofString "Error opening and reading file with filename [" ++ name ++ Text.ofString "]."))
  | .ok t => (r.note .info (Text.ofString "running " ++ name)).runText t

def runSources (r : Run) : List Text → Option Run
  | [] => some r
  | name :: names => do (← r.runSource name).runSources names

def listCells (r : Run) : Option Run :=
  (Sheet.list r.stdout r.sheet).map fun ((stop, stdout), sheet) =>
    let r := { r with sheet, stdout }.settle
    match stop with
    | none => r
    | some cell => r.complain (Sheet.listError cell)

/-- Views the sheet. The run does not get beyond a viewer that breaks down. -/
def view (r : Run) (d : Display) : Option Run := do
  let (result, sheet) ← d.view r.sheet
  let r := { r with sheet }.settle
  match result with
  | .ok none => some r
  | .ok (some e) => some (r.complain e.message)
  | .error _ => none

def finish (r : Run) (dump view : Bool) (d : Display) : Option Run := do
  let r ← if dump then r.listCells else some r
  if view then r.view d else some r

end Run

/-- Runs the named sources, then lists the cells and opens the viewer if asked to. -/
def run (detectsCycles : Bool) (names : List Text) (dump view : Bool) (inputs : Inputs)
    (stdout : Output) (display : Display := {}) : Option Run := do
  let r : Run := { sheet := { detectsCycles }, inputs, stdout }
  (← r.runSources names).finish dump view display

end Spreadsheet.Command
