import Spreadsheet.Inputs

/-! # Sources

Programs are read from files, or from standard input for the name `-`.
-/
namespace Spreadsheet.Source

def stdinName : Text := [Text.byte '-']

inductive Error where
  | opening (name : Text) (e : FileError)
  | reading (name : Text) (e : FileError)
  deriving DecidableEq, Repr

def Error.message : Error → Text
  | .opening name e => e.opening name
  | .reading name e => Text.ofString "error reading " ++ name ++ Text.ofString ": " ++ e.reading name

/-- A directory can be opened, and fails when it is read. -/
def Error.ofFile (name : Text) : FileError → Error
  | .isDirectory => .reading name .isDirectory
  | e => .opening name e

def load (inputs : Inputs) (name : Text) : Except Error Text × Inputs :=
  if name = stdinName then inputs.takeStdin.map .ok id
  else (inputs.read name).map (·.mapError (.ofFile name)) id

end Spreadsheet.Source
