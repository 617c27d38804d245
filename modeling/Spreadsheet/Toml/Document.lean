import Spreadsheet.Toml.Statement

/-! # Documents of TOML

The tables that statements build up. Tables are numbered, and an item refers to a table by its
number: an inline table that takes the place of an array stands there and in the table around it at
once.

A table that was only mentioned as the parent of another one is implicit, and may still be defined
once; every other name is defined once only. A name that is implicit and holds an array gives it up
for its new value.
-/
namespace Spreadsheet.Toml

inductive Item where
  | leaf (s : Scalar)
  | array
  | table (id : Nat)
  /-- The last element comes first. -/
  | elements (ids : List Nat)
  deriving DecidableEq, Repr

abbrev Table := List (Text × Item)

/-- Writes an entry over the one of the same name, or after all others. -/
def Table.set (name : Text) (item : Item) : Table → Table
  | [] => [(name, item)]
  | (n, i) :: t => if n = name then (n, item) :: t else (n, i) :: Table.set name item t

/-- The table that an item stands for: an array of tables stands for its last element. -/
def Item.table? : Item → Option Nat
  | .table id => some id
  | .elements (id :: _) => some id
  | _ => none

/-- The names that lead to a place from the root table. -/
abbrev Path := List Text

/-- A document under construction. Its root is table 0. -/
structure Draft where
  tables : Array Table := #[[]]
  /-- Tables that may still be defined. -/
  implicit : List Path := []
  /-- Names that hold an array of values. -/
  arrays : List Path := []

namespace Draft

def markImplicit (d : Draft) (p : Path) : Draft :=
  if d.implicit.contains p then d else { d with implicit := p :: d.implicit }

def unmarkImplicit (d : Draft) (p : Path) : Draft := { d with implicit := d.implicit.filter (· != p) }

/-- Notes whether a name holds an array of values. The note on an empty name goes to the table that
it stands in. -/
def noteArray (d : Draft) (context : Path) (name : Text) (isArray : Bool) : Draft :=
  let p := if name.isEmpty && !context.isEmpty then context else context ++ [name]
  let arrays := d.arrays.filter (· != p)
  { d with arrays := if isArray then p :: arrays else arrays }

def lookup (d : Draft) (id : Nat) (name : Text) : Option Item := do (← d.tables[id]?).lookup name

def write (d : Draft) (id : Nat) (name : Text) (item : Item) : Draft :=
  { d with tables := d.tables.modify id (Table.set name item) }

def fresh (d : Draft) : Nat × Draft := (d.tables.size, { d with tables := d.tables.push [] })

def locate (d : Draft) (p : Path) : Option Nat :=
  p.foldlM (fun id name => do (← d.lookup id name).table?) 0

/-- Defines a name. An implicit table keeps what it holds. -/
def define (d : Draft) (context : Path) (name : Text) (item : Item) : Option Draft := do
  let id ← d.locate context
  let p := context ++ [name]
  match d.lookup id name with
  | none => some (d.write id name item)
  | some _ =>
    if !d.implicit.contains p then none
    else if d.arrays.contains p then some ((d.unmarkImplicit p).write id name item)
    else some (d.unmarkImplicit p)

/-- Goes down from a table, making the tables that are not there yet, implicitly. -/
def descend (d : Draft) (id : Nat) (done : Path) : Path → Option (Nat × Draft)
  | [] => some (id, d)
  | name :: path =>
    let p := done ++ [name]
    match d.lookup id name with
    | none =>
      let (new, d) := d.fresh
      ((d.write id name (.table new)).markImplicit p).descend new p path
    | some item => do d.descend (← item.table?) p path

def openTable (d : Draft) (context : Path) (name : Text) : Option Draft := do
  let (_, d) ← d.descend 0 [] context
  let (new, d) := d.fresh
  d.define context name (.table new)

def openElement (d : Draft) (context : Path) (name : Text) : Option Draft := do
  let (id, d) ← d.descend 0 [] context
  let (new, d) := d.fresh
  match d.lookup id name with
  | none => some (d.write id name (.elements [new]))
  | some (.elements ids) => some (d.write id name (.elements (new :: ids)))
  | some _ => none

/-- Opens the tables that a dotted key leads through, each of them implicitly. -/
def openFront (d : Draft) (context : Path) : List Text → Option (Path × Draft)
  | [] => some (context, d)
  | name :: front => do
    let p := context ++ [name]
    (← (d.markImplicit p).openTable context name).openFront p front

/-- Enters an item into an inline table under a dotted key, which leads through tables only. -/
def enter (d : Draft) (id : Nat) (name : Text) (item : Item) : (front : List Text) → Option Draft
  | [] => some (d.write id name item)
  | part :: front =>
    match d.lookup id part with
    | none =>
      let (new, d) := d.fresh
      (d.write id part (.table new)).enter new name item front
    | some (.table inner) => d.enter inner name item front
    | some _ => none

def isArray : Value → Bool
  | .array _ => true
  | _ => false

mutual

/-- Builds up the value of a name. The entries of an inline table are defined in the document like
any others, and make up a table of their own besides, which is the value. -/
def build (d : Draft) (context : Path) (name : Text) (inArray : Bool) : Value → Option (Item × Draft)
  | .scalar s => some (.leaf s, d)
  | .array items => do
    let d ← (d.noteArray context name true).buildItems context name items
    some (.array, d)
  | .inline entries => do
    let p := context ++ [name]
    let d := d.markImplicit p
    let d ← if inArray then d.openElement context name else d.openTable context name
    let (id, d) := d.fresh
    let d ← d.buildEntries p (some id) entries
    some (.table id, d)

def buildItems (d : Draft) (context : Path) (name : Text) : List Value → Option Draft
  | [] => some d
  | v :: vs => do
    let (_, d) ← d.build context name true v
    d.buildItems context name vs

/-- Defines keys below a path, and enters them into the inline table that they belong to, if any. -/
def buildEntries (d : Draft) (context : Path) (owner : Option Nat) : List (Key × Value) → Option Draft
  | [] => some d
  | (key, v) :: es => do
    let (p, d) ← d.openFront context key.front
    let (item, d) ← d.build p key.last false v
    let d ← d.define p key.last item
    let d := d.noteArray p key.last (isArray v)
    let d ← match owner with
      | some id => d.enter id key.last item key.front
      | none => some d
    d.buildEntries context owner es

end

def addAll (d : Draft) (context : Path) : List Statement → Option Draft
  | [] => some d
  | .table k :: sts => do
    let p := k.front ++ [k.last]
    ((← d.openTable k.front k.last).noteArray p [] false).addAll p sts
  | .element k :: sts => do
    let p := k.front ++ [k.last]
    ((← d.openElement k.front k.last).noteArray p [] false).addAll p sts
  | .assign k v :: sts => do (← d.buildEntries context none [(k, v)]).addAll context sts

end Draft

/-- The tables of a document, the root first. -/
structure Document where
  tables : Array Table

namespace Document

def root (d : Document) : Table := d.tables[0]?.getD []

def entries? (d : Document) : Item → Option Table
  | .table id => d.tables[id]?
  | _ => none

def parse (t : Text) : Option Document := do
  return ⟨(← Draft.addAll {} [] (← statements t)).tables⟩

end Document
end Spreadsheet.Toml
