import Spreadsheet.Toml.Lexeme

/-! # Statements of TOML

A document is a list of table headers and assignments, a line each. Arrays and inline tables may go
over several lines, with comments in them and a comma at their end.
-/
namespace Spreadsheet.Toml

/-- A dotted key: the tables it leads through, and the name in the last of them. -/
structure Key where
  front : List Text
  last : Text
  deriving DecidableEq, Repr

inductive Value where
  | scalar (s : Scalar)
  | array (items : List Value)
  | inline (entries : List (Key × Value))

inductive Statement where
  | table (key : Key)
  | element (key : Key)
  | assign (key : Key) (value : Value)

def skipGaps (inComment : Bool) : List Char → List Char
  | [] => []
  | c :: r =>
    if isNewline c then skipGaps false r
    else if inComment || isBlank c then skipGaps inComment r
    else if c = '#' then skipGaps true r
    else c :: r

def skipBlanks (s : List Char) : List Char := s.dropWhile isBlank

def isBareKeyChar (c : Char) : Bool := c.isAlphanum || c = '_' || c = '-'

def keyPart : List Char → Option (Text × List Char)
  | '"' :: r => (basic r).map fun (s, r) => (Text.ofChars s, r)
  | '\'' :: r => (literal r).map fun (s, r) => (Text.ofChars s, r)
  | s =>
    let bare := s.takeWhile isBareKeyChar
    if bare.isEmpty then none else some (Text.ofChars bare, s.drop bare.length)

/-- A dotted key of at most `fuel` parts, blanks around it included. -/
def keyWithin : (fuel : Nat) → List Char → Option (Key × List Char)
  | 0, _ => none
  | fuel + 1, s => do
    let (part, s) ← keyPart (skipBlanks s)
    match skipBlanks s with
    | '.' :: s =>
      let (k, s) ← keyWithin fuel s
      some (⟨part :: k.front, k.last⟩, s)
    | s => some (⟨[], part⟩, s)

def key (s : List Char) : Option (Key × List Char) := keyWithin (s.length + 1) s

mutual

/-- A value that takes at most `fuel` characters. -/
def value : (fuel : Nat) → List Char → Option (Value × List Char)
  | 0, _ => none
  | fuel + 1, s =>
    match s with
    | '[' :: r => (items fuel (skipGaps false r)).map fun (vs, r) => (.array vs, r)
    | '\x7b' :: r => (entries fuel (skipGaps false r)).map fun (es, r) => (.inline es, r)
    | s =>
      match quoted? s with
      | some lexed => lexed.map fun (t, r) => (.scalar (.text (Text.ofChars t)), r)
      | none => (word? s).map fun (v, r) => (.scalar v, r)

def items : (fuel : Nat) → List Char → Option (List Value × List Char)
  | 0, _ => none
  | fuel + 1, s =>
    match s with
    | ']' :: r => some ([], r)
    | s => do
      let (v, r) ← value fuel s
      match skipGaps false r with
      | ',' :: r =>
        let (vs, r) ← items fuel (skipGaps false r)
        some (v :: vs, r)
      | ']' :: r => some ([v], r)
      | _ => none

def entries : (fuel : Nat) → List Char → Option (List (Key × Value) × List Char)
  | 0, _ => none
  | fuel + 1, s =>
    match s with
    | '\x7d' :: r => some ([], r)
    | s => do
      let (k, r) ← key s
      let (v, r) ← value fuel (skipBlanks (← expect '=' r))
      match skipGaps false r with
      | ',' :: r =>
        let (es, r) ← entries fuel (skipGaps false r)
        some ((k, v) :: es, r)
      | '\x7d' :: r => some ([(k, v)], r)
      | _ => none

end

def statement (s : List Char) : Option (Statement × List Char) := do
  match s with
  | '[' :: '[' :: r =>
    let (k, r) ← key r
    some (.element k, ← expect ']' (← expect ']' r))
  | '[' :: r =>
    let (k, r) ← key r
    some (.table k, ← expect ']' r)
  | s =>
    let (k, r) ← key s
    let r := skipBlanks (← expect '=' r)
    let (v, r) ← value (r.length + 1) r
    some (.assign k v, r)

/-- Nothing but a comment may follow a statement on its line. -/
def endsLine (s : List Char) : Bool :=
  match skipBlanks s with
  | [] => true
  | c :: _ => c = '#' || isNewline c

def statementsWithin : (fuel : Nat) → List Char → Option (List Statement)
  | 0, _ => none
  | fuel + 1, s =>
    match skipGaps false s with
    | [] => some []
    | s => do
      let (st, r) ← statement s
      if endsLine r then
        let sts ← statementsWithin fuel r
        some (st :: sts)
      else none

def byteOrderMarks : List Text := [[0xFF, 0xFE], [0xFE, 0xFF], [0xEF, 0xBB, 0xBF]]

def dropMark (t : Text) : Text :=
  match byteOrderMarks.find? (·.isPrefixOf t) with
  | some mark => t.drop mark.length
  | none => t

/-- The statements of a document; after its byte order mark it is UTF-8. -/
def statements (t : Text) : Option (List Statement) := do
  let cs ← (dropMark t).chars?
  if isClean cs then statementsWithin (cs.length + 1) cs else none

end Spreadsheet.Toml
