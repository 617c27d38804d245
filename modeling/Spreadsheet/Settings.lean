import Spreadsheet.Inputs
import Spreadsheet.Text.Decimal
import Spreadsheet.Toml.Document

/-! # Settings

Settings are read from a TOML document with the tables `log`, `eval` and `view`. Names match without
regard to case, and unknown names are ignored.
-/
namespace Spreadsheet

structure Settings where
  verbosity : Int64 := 0
  logFile : Text := []
  detectsCycles : Bool := false
  columnWidth : Int64 := 12
  showsExpressions : Bool := false
  /-- The file the settings were read from; empty for the defaults. -/
  path : Text := []
  deriving DecidableEq, Repr

namespace Settings

def defaultPath : Text := Text.ofString "sheetlang.toml"

def leastColumnWidth : Int64 := 4

inductive Error where
  | unreadable (path : Text) (e : FileError)
  | malformed (path : Text)
  | narrowColumns (path : Text) (width : Int64)
  deriving DecidableEq, Repr

def Error.message : Error → Text
  | .unreadable path e => Text.ofString "cannot read " ++ path ++ Text.ofString ": " ++ e.reading path
  | .malformed path =>
    Text.ofString "parse error in " ++ path ++ Text.ofString ": not a settings document"
  | .narrowColumns path width =>
    path ++ Text.ofString ": view.column-width must be at least 4, got " ++ Decimal.ofInt64 width

/-- Letters by simple case folding: the long s and the Kelvin sign are letters too. -/
def foldChar (c : Char) : Char :=
  if c = '\u017F' then 's' else if c = '\u212A' then 'k' else c.toLower

def isNamed (name : String) (key : Text) : Bool :=
  key.chars.map foldChar == name.toList.map foldChar

def text? : Toml.Item → Option Text
  | .leaf (.text t) => some t
  | _ => none

def integer? : Toml.Item → Option Int64
  | .leaf (.integer i) => some i
  | _ => none

def boolean? : Toml.Item → Option Bool
  | .leaf (.boolean b) => some b
  | _ => none

def setLog (s : Settings) (key : Text) (item : Toml.Item) : Option Settings :=
  if isNamed "verbosity" key then (integer? item).map ({ s with verbosity := · })
  else if isNamed "file" key then (text? item).map ({ s with logFile := · })
  else some s

def setEval (s : Settings) (key : Text) (item : Toml.Item) : Option Settings :=
  if isNamed "detect-cycles" key then (boolean? item).map ({ s with detectsCycles := · })
  else some s

def setView (s : Settings) (key : Text) (item : Toml.Item) : Option Settings :=
  if isNamed "column-width" key then (integer? item).map ({ s with columnWidth := · })
  else if isNamed "show-expressions" key then (boolean? item).map ({ s with showsExpressions := · })
  else some s

/-- Applies all entries of a table; an item that is no table has none and does not fit. -/
def setAll (s : Settings) (d : Toml.Document) (set : Settings → Text → Toml.Item → Option Settings)
    (item : Toml.Item) : Option Settings := do
  (← d.entries? item).foldlM (fun s (key, item) => set s key item) s

def setTable (s : Settings) (d : Toml.Document) (key : Text) (item : Toml.Item) : Option Settings :=
  if isNamed "log" key then s.setAll d setLog item
  else if isNamed "eval" key then s.setAll d setEval item
  else if isNamed "view" key then s.setAll d setView item
  else some s

def ofDocument (t : Text) : Option Settings := do
  let d ← Toml.Document.parse t
  d.root.foldlM (fun s (key, item) => s.setTable d key item) {}

def ofFile (path contents : Text) : Except Error Settings :=
  match ofDocument contents with
  | none => .error (.malformed path)
  | some s =>
    if s.columnWidth < leastColumnWidth then .error (.narrowColumns path s.columnWidth)
    else .ok { s with path }

def ofRead (path : Text) : Except FileError Text → Except Error Settings
  | .error e => .error (.unreadable path e)
  | .ok t => ofFile path t

/-- The settings at the default path, where there need not be a file. -/
def ofDefault : Except FileError Text → Except Error Settings
  | .error .notFound => .ok {}
  | contents => ofRead defaultPath contents

/-- Loads the named settings, or the default ones if the name is empty; gives what is left to read
as well. -/
def load (inputs : Inputs) (path : Text) : Except Error Settings × Inputs :=
  if path.isEmpty then (inputs.read defaultPath).map ofDefault id
  else (inputs.read path).map (ofRead path) id

end Settings
end Spreadsheet
