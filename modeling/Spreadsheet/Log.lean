import Spreadsheet.Text

/-! # Log entries

Every entry has a level and the name of the part that wrote it. A verbosity shows all entries up to
some level: 0 shows notices and worse, 2 and more show everything, -4 and less nothing.
-/
namespace Spreadsheet.Log

inductive Level where
  | critical
  | error
  | warning
  | notice
  | info
  | debug
  deriving DecidableEq, Repr

namespace Level

/-- The least verbosity that shows a level. -/
def verbosity : Level → Int64
  | .critical => -3
  | .error => -2
  | .warning => -1
  | .notice => 0
  | .info => 1
  | .debug => 2

def title : Level → String
  | .critical => " CRIT"
  | .error => "ERROR"
  | .warning => " WARN"
  | .notice => " NOTE"
  | .info => " INFO"
  | .debug => "DEBUG"

end Level

structure Entry where
  level : Level
  origin : String
  message : Text
  deriving DecidableEq, Repr

namespace Entry

def isShown (e : Entry) (verbosity : Int64) : Bool := e.level.verbosity ≤ verbosity

/-- The line of an entry, less its time. -/
def line (e : Entry) : Text :=
  Text.ofString (e.level.title ++ " [" ++ e.origin ++ "] ") ++ e.message

end Entry
end Spreadsheet.Log
