import Spreadsheet.Files

/-! # Inputs

All that a command can read: files, and standard input, which can be read once; after that it is
empty.
-/
namespace Spreadsheet

structure Inputs where
  files : Files
  stdin : Text

namespace Inputs

def takeStdin (inputs : Inputs) : Text × Inputs := (inputs.stdin, { inputs with stdin := [] })

/-- Reads a file, which may be standard input by another name. -/
def read (inputs : Inputs) (path : Text) : Except FileError Text × Inputs :=
  match inputs.files path with
  | .error e => (.error e, inputs)
  | .ok (.text t) => (.ok t, inputs)
  | .ok .stdin => inputs.takeStdin.map .ok id

end Inputs
end Spreadsheet
