import Spreadsheet.Text.IntegerLiteral
import Spreadsheet.Text.Quoted

/-! # Flags

Flags come before the names of sources. They start with one or two dashes and take a value after
`=`, or, if they are not switches, as the next argument. `--` ends the flags.
-/
namespace Spreadsheet.Command

structure Options where
  verbosity : Option Int64 := none
  config : Text := []
  dump : Bool := false
  view : Bool := false
  names : List Text := []
  deriving DecidableEq, Repr

inductive FlagError where
  | badForm (argument : Text)
  | undefined (name : Text)
  | noArgument (name : Text)
  | badValue (name value : Text) (fault : Decimal.Fault)
  | badSwitch (name value : Text)
  | help
  deriving DecidableEq, Repr

def faultText : Decimal.Fault → Text
  | .malformed => Text.ofString "parse error"
  | .outOfRange => Text.ofString "value out of range"

/-- The complaint about an argument; asking for help is none. -/
def FlagError.message : FlagError → Text
  | .badForm a => Text.ofString "bad flag syntax: " ++ a ++ [Text.newline]
  | .undefined n => Text.ofString "flag provided but not defined: -" ++ n ++ [Text.newline]
  | .noArgument n => Text.ofString "flag needs an argument: -" ++ n ++ [Text.newline]
  | .badValue n v f =>
    Text.ofString "invalid value " ++ Quoted.quote v ++ Text.ofString " for flag -" ++ n
      ++ Text.ofString ": " ++ faultText f ++ [Text.newline]
  | .badSwitch n v =>
    Text.ofString "invalid boolean value " ++ Quoted.quote v ++ Text.ofString " for -" ++ n
      ++ Text.ofString ": " ++ faultText .malformed ++ [Text.newline]
  | .help => []

inductive Flag where
  | verbosity
  | config
  | dump
  | view
  deriving DecidableEq, Repr

def Flag.named? (name : Text) : Option Flag :=
  [("v", Flag.verbosity), ("config", .config), ("dump", .dump), ("view", .view)].findSome? fun (n, f) =>
    if Text.ofString n = name then some f else none

def truth? (value : Text) : Option Bool :=
  if ["1", "t", "T", "true", "TRUE", "True"].any (Text.ofString · == value) then some true
  else if ["0", "f", "F", "false", "FALSE", "False"].any (Text.ofString · == value) then some false
  else none

/-- The name of a flag and the value after its first `=`, which is never the first byte. -/
def splitValue : Text → Text × Option Text
  | [] => ([], none)
  | b :: r =>
    let tail := r.dropWhile (· != Text.byte '=')
    (b :: r.takeWhile (· != Text.byte '='), if tail.isEmpty then none else some (tail.drop 1))

def setSwitch (name : Text) (value : Option Text) (set : Bool → Options) : Except FlagError Options :=
  match value with
  | none => .ok (set true)
  | some v =>
    match truth? v with
    | some b => .ok (set b)
    | none => .error (.badSwitch name v)

def setValue (o : Options) (flag : Flag) (name value : Text) : Except FlagError Options :=
  match flag with
  | .verbosity =>
    match IntegerLiteral.read value with
    | .ok i => .ok { o with verbosity := some i }
    | .error f => .error (.badValue name value f)
  | _ => .ok { o with config := value }

/-- An argument is a flag, the end of the flags, or the first name. -/
inductive Argument where
  | flag (body : Text)
  | endOfFlags
  | name
  | bad

def Argument.of (a : Text) : Argument :=
  let dash := Text.byte '-'
  let check (body : Text) : Argument :=
    match body with
    | [] => .bad
    | b :: _ => if b = dash || b = Text.byte '=' then .bad else .flag body
  match a with
  | [] | [_] => .name
  | b :: c :: r =>
    if b ≠ dash then .name
    else if c ≠ dash then check (c :: r)
    else if r.isEmpty then .endOfFlags
    else check r

def isHelp (name : Text) : Bool := name == Text.ofString "help" || name == Text.ofString "h"

def parseFrom (o : Options) : List Text → Except FlagError Options
  | [] => .ok o
  | a :: args =>
    match Argument.of a with
    | .name => .ok { o with names := a :: args }
    | .endOfFlags => .ok { o with names := args }
    | .bad => .error (.badForm a)
    | .flag body =>
      let (name, value) := splitValue body
      match Flag.named? name with
      | none => .error (if isHelp name then .help else .undefined name)
      | some .dump =>
        match setSwitch name value fun b => { o with dump := b } with
        | .ok o => parseFrom o args
        | .error e => .error e
      | some .view =>
        match setSwitch name value fun b => { o with view := b } with
        | .ok o => parseFrom o args
        | .error e => .error e
      | some flag =>
        match value, args with
        | some v, args =>
          match setValue o flag name v with
          | .ok o => parseFrom o args
          | .error e => .error e
        | none, [] => .error (.noArgument name)
        | none, v :: args =>
          match setValue o flag name v with
          | .ok o => parseFrom o args
          | .error e => .error e

def Options.parse (args : List Text) : Except FlagError Options := parseFrom {} args

def usage : Text := Text.ofString <| "Usage: sheetlang [options] file...\n\n"
  ++ "Runs spreadsheet programs against one shared sheet. Use - for stdin.\n\n"
  ++ "Options:\n"
  ++ "  -config string\n    \tConfiguration file (default ./sheetlang.toml when present)\n"
  ++ "  -dump\n    \tPrint every cell with its expression and value after running\n"
  ++ "  -v int\n    \tLog verbosity from -4 (silent) to 2 (debug); overrides log.verbosity\n"
  ++ "  -view\n    \tOpen the terminal viewer after running\n"

end Spreadsheet.Command
