import Spreadsheet.Text

/-! # Files

A tree of files, where the directories on the way to a file are there too, and what can go wrong
when a path is opened or read. The tree is the working directory of a machine, which has a few
places outside of it.
-/
namespace Spreadsheet

inductive FileError where
  | notFound
  | notDirectory
  | isDirectory
  | nameTooLong
  | invalidName
  | noDevice
  | other (cause : Text)
  deriving DecidableEq, Repr

namespace FileError

def cause : FileError → Text
  | .notFound => Text.ofString "no such file or directory"
  | .notDirectory => Text.ofString "not a directory"
  | .isDirectory => Text.ofString "is a directory"
  | .nameTooLong => Text.ofString "file name too long"
  | .invalidName => Text.ofString "invalid argument"
  | .noDevice => Text.ofString "no such device or address"
  | .other t => t

def opening (path : Text) (e : FileError) : Text :=
  Text.ofString "open " ++ path ++ Text.ofString ": " ++ e.cause

/-- What went wrong with a file that was to be read. A directory opens, and fails only then. -/
def reading (path : Text) (e : FileError) : Text :=
  match e with
  | .isDirectory => Text.ofString "read " ++ path ++ Text.ofString ": " ++ e.cause
  | e => e.opening path

end FileError

/-- What a file that can be read holds: a text, or all that is left on standard input. -/
inductive Contents where
  | text (t : Text)
  | stdin
  deriving DecidableEq, Repr

abbrev Files := Text → Except FileError Contents

def slash : UInt8 := Text.byte '/'

def splitPath : Text → List Text
  | [] => [[]]
  | b :: r =>
    match splitPath r with
    | [] => [[b]]
    | p :: ps => if b = slash then [] :: p :: ps else (b :: p) :: ps

def pathNames (path : Text) : List Text := (splitPath path).filter fun p => !p.isEmpty

/-- The name by which a directory is its own member. -/
def here : Text := Text.ofString "."

/-- The name by which a directory leads to the one that holds it. -/
def above : Text := Text.ofString ".."

/-- A place among the files: in the tree, by the names that lead to it from the working directory,
or elsewhere, by those that lead to it from the root of the machine. -/
inductive Place where
  | inside (names : List Text)
  | outside (names : List Text)
  deriving DecidableEq, Repr

namespace Place

/-- The directory that holds the working directory. -/
def surroundings : Place := .outside [Text.ofString "tmp"]

def parent : Place → Place
  | .inside [] => surroundings
  | .inside names => .inside names.dropLast
  | .outside names => .outside names.dropLast

def child (name : Text) : Place → Place
  | .inside names => .inside (names ++ [name])
  | .outside names => .outside (names ++ [name])

def start (path : Text) : Place := if path.head? = some slash then .outside [] else .inside []

end Place

/-- Files of the machine that hold no text of their own. -/
inductive Device where
  /-- Always empty, whatever is written to it. -/
  | null
  | stdin
  | stderr
  /-- The terminal of the command, which has none. -/
  | terminal
  deriving DecidableEq, Repr

namespace Device

def table : List (List String × Device) := [
  (["dev", "null"], .null),
  (["dev", "stdin"], .stdin),
  (["dev", "fd", "0"], .stdin),
  (["proc", "self", "fd", "0"], .stdin),
  (["dev", "stderr"], .stderr),
  (["dev", "fd", "2"], .stderr),
  (["proc", "self", "fd", "2"], .stderr),
  (["dev", "tty"], .terminal)]

def ofPlace? : Place → Option Device
  | .inside _ => none
  | .outside names => (table.find? fun (path, _) => path.map Text.ofString == names).map (·.2)

def read : Device → Except FileError Contents
  | .stdin => .ok .stdin
  | .terminal => .error .noDevice
  | .null => .ok (.text [])
  | .stderr => .ok (.text [])

end Device

/-- Files with their contents, and directories without, by the names that lead to them. -/
structure FileTree where
  entries : List (List Text × Option Text)

namespace FileTree

inductive Kind where
  | file (contents : Text)
  | device (d : Device)
  | directory
  | missing

/-- Follows the names of a path by their spelling alone, whatever stands at them. -/
def settle (names : List Text) : List Text :=
  names.foldl (fun place name =>
    if name = here then place else if name = above then place.dropLast else place ++ [name]) []

def ofPaths (files : List (Text × Option Text)) : FileTree :=
  ⟨files.map fun (path, contents) => (settle (pathNames path), contents)⟩

def systemDirectories : List (List String) := [
  [], ["bin"], ["dev"], ["dev", "fd"], ["etc"], ["home"], ["lib"], ["opt"], ["proc"],
  ["proc", "self"], ["proc", "self", "fd"], ["run"], ["sbin"], ["sys"], ["tmp"], ["usr"],
  ["usr", "bin"], ["usr", "lib"], ["usr", "local"], ["usr", "share"], ["var"], ["var", "tmp"]]

def kindAt (t : FileTree) : Place → Kind
  | .outside names =>
    match Device.ofPlace? (.outside names) with
    | some d => .device d
    | none =>
      if systemDirectories.any (·.map Text.ofString == names) then .directory else .missing
  | .inside names =>
    match t.entries.find? (fun e => e.1 == names && e.2.isSome) with
    | some (_, some contents) => .file contents
    | _ =>
      if names.isEmpty || t.entries.any (fun e => names.isPrefixOf e.1) then .directory
      else .missing

def nameLimit : Nat := 255

def pathLimit : Nat := 4095

def requireDirectory (t : FileTree) (place : Place) : Except FileError Unit :=
  match t.kindAt place with
  | .missing => .error .notFound
  | .file _ => .error .notDirectory
  | .device _ => .error .notDirectory
  | .directory => .ok ()

/-- Follows names from a place, each from a directory. Nothing need stand at the last of them. -/
def walk (t : FileTree) (place : Place) : List Text → Except FileError Place
  | [] => .ok place
  | name :: rest => do
    t.requireDirectory place
    if name = here then t.walk place rest
    else if name = above then t.walk place.parent rest
    else if nameLimit < name.length then .error .nameTooLong
    else t.walk (place.child name) rest

def requirePath (path : Text) : Except FileError Unit :=
  if path.contains 0 then .error .invalidName
  else if path.isEmpty then .error .notFound
  else if pathLimit < path.length then .error .nameTooLong
  else .ok ()

def resolve (t : FileTree) (path : Text) : Except FileError Place := do
  requirePath path
  t.walk (Place.start path) (pathNames path)

/-- Whether a path asks for a directory. -/
def endsInSlash (path : Text) : Bool := path.getLast? == some slash

def read (t : FileTree) : Files := fun path => do
  match t.kindAt (← t.resolve path) with
  | .missing => .error .notFound
  | .directory => .error .isDirectory
  | .file contents => if endsInSlash path then .error .notDirectory else .ok (.text contents)
  | .device d => if endsInSlash path then .error .notDirectory else d.read

/-- Opens a file for appending, and makes it where it is not there. A path that asks for a directory
is refused before its last name is looked up. -/
def openForAppend (t : FileTree) (path : Text) : Except FileError FileTree := do
  requirePath path
  if endsInSlash path then
    t.requireDirectory (← t.walk (Place.start path) (pathNames path).dropLast)
    .error .isDirectory
  else
    let place ← t.resolve path
    match t.kindAt place, place with
    | .directory, _ => .error .isDirectory
    | .device .terminal, _ => .error .noDevice
    | .missing, .inside names => .ok ⟨t.entries ++ [(names, some [])]⟩
    | _, _ => .ok t

end FileTree
end Spreadsheet
