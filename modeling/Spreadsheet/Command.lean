import Spreadsheet.Command.Flags
import Spreadsheet.Command.Run
import Spreadsheet.Settings

/-! # The command

Reads flags and settings, opens the log, and runs the sources.
-/
namespace Spreadsheet.Command

structure World where
  inputs : Inputs
  /-- Opens a log file. It is made where it is not there, and is among the files from then on. -/
  openLog : Text → Except FileError Files

inductive LogTarget where
  | nowhere
  | stderr
  | file (path : Text)
  deriving DecidableEq, Repr

structure Result where
  exitCode : Nat
  stdout : Text := []
  stderr : Text := []
  /-- The entries shown, oldest first. -/
  log : List Log.Entry := []
  target : LogTarget := .nowhere

/-- The verbosity up to which nothing is logged at all. -/
def silent : Int64 := -4

def logTarget (verbosity : Int64) (file : Text) : LogTarget :=
  if verbosity ≤ silent then .nowhere else if file.isEmpty then .stderr else .file file

/-- What is there to read once the log is open. A log file that cannot be opened is fatal. -/
def openTarget (w : World) : LogTarget → Except Text Inputs
  | .file path =>
    match w.openLog path with
    | .ok files => .ok { w.inputs with files }
    | .error e => .error (Text.ofString "log file error: " ++ e.opening path)
  | _ => .ok w.inputs

def execute (w : World) (settings : Settings) (o : Options) : Option Result :=
  let verbosity := o.verbosity.getD settings.verbosity
  let target := logTarget verbosity settings.logFile
  match openTarget w target with
  | .error message => some { exitCode := 1, stderr := message ++ [Text.newline] }
  | .ok inputs =>
    if o.names.isEmpty && !o.view then some { exitCode := 2, stderr := usage, target }
    else
      let display : Display :=
        { columnWidth := settings.columnWidth, showsExpressions := settings.showsExpressions }
      (run settings.detectsCycles o.names o.dump o.view inputs {} display).map fun r => {
        exitCode := r.exitCode
        stdout := r.stdout.text
        stderr := r.stderr
        log := r.log.reverse.filter (·.isShown verbosity)
        target }

/-- The whole command; none if a program does not end, or the viewer breaks down. -/
def command (w : World) (args : List Text) : Option Result :=
  match Options.parse args with
  | .error e =>
    some { exitCode := if e = .help then 0 else 2, stderr := e.message ++ usage }
  | .ok o =>
    match Settings.load w.inputs o.config with
    | (.error e, _) => some { exitCode := 1, stderr := e.message ++ [Text.newline] }
    | (.ok settings, inputs) => execute { w with inputs } settings o

end Spreadsheet.Command
