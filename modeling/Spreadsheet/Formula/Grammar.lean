import Spreadsheet.Formula.Symbol
import Spreadsheet.Grammar.Parse
import Spreadsheet.Grammar.Scan
import Spreadsheet.Sheet

/-! # Grammar of the formula language

    Program     → Assignment | Print | ε
    Assignment  → AssignmentHead Program
    Print       → PrintHead Program
    Head        → AbsoluteCell ":=" Expression
    PrintHead   → "print_value" Expression | "print_expr" Expression
    Expression  → Term ("+" Term)* | '"' text '"'
    Term        → Value ("*" Value)*
    Value       → CellReference | Integer
    Reference   → UpperCaseLetters Digits | "r" Integer "c" Integer

The actions evaluate as the parse goes on, so what reading a cell and reporting mean is a parameter.
-/
namespace Spreadsheet.Formula

abbrev Tree := Node Symbol Attribute

/-- What the language leaves open: how a cell is read and what a print statement does. -/
structure Effects where
  compute : Ref → Computation Sheet Cell
  announce : ReportKind → Tree → Computation Sheet Unit

/-- Cells read as empty and nothing is printed. -/
def Effects.inert : Effects := ⟨fun _ => pure {}, fun _ _ => pure ()⟩

abbrev FormulaRule := Rule Symbol Sheet Attribute

abbrev FormulaAction := Action Symbol Sheet Attribute

def pattern (name : String) (scan : Text → Nat) (interpret : Text → Option Attribute) : FormulaRule :=
  .token ⟨Text.ofString name, true, scan, interpret⟩

def literal (word : String) : FormulaRule :=
  .token ⟨Text.ofString word, true, Scan.literal (Text.ofString word), fun _ => some {}⟩

def production (name : String) (alternatives : List (List Symbol))
    (action : Option FormulaAction := none) : FormulaRule :=
  .production ⟨Text.ofString name, alternatives, action⟩

def integerAttribute (word : Text) : Option Attribute :=
  (Decimal.read word).toOption.map fun i => { value := .int i }

def liftFirst : FormulaAction := fun n => pure (some (n.childAttr 0))

/-- Combines the value at `head` with the one at `tail`, unless that tail matched nothing. -/
def combine (op : Value → Value → Value) (head tail : Nat) (n : Tree) : Value :=
  let v := (n.childAttr head).value
  match n.children[tail]? with
  | some t => if t.isEpsilon then v else op v t.attr.value
  | none => v

def combining (op : Value → Value → Value) (head tail : Nat) : FormulaAction := fun n =>
  pure (some { value := combine op head tail n })

/-- A label may denote no column, and then the cell is refused. -/
def resolveAbsolute : FormulaAction := fun n => do
  let number := (n.childAttr 1).value.int?.getD 0
  match Ref.ofLabel (n.childText 0) number with
  | .ok r => pure (some { ref := some r })
  | .error e =>
    modify (·.note .debug
      (Text.ofString "rejecting cell " ++ n.text ++ Text.ofString ": " ++ e.message))
    pure none

/-- A relative reference is refused without a context, and outside the grid. -/
def resolveRelative : FormulaAction := fun n => do
  let rows := (n.childAttr 1).value.int?.getD 0
  let cols := (n.childAttr 3).value.int?.getD 0
  match (← get).context with
  | none => pure none
  | some origin =>
    match origin.shift? rows cols with
    | none => pure none
    | some r => pure (some { ref := some r })

def readValue (fx : Effects) : FormulaAction := fun n => do
  if n.alternative = some 0 then
    match (n.childAttr 0).ref with
    | none => pure none
    | some r =>
      let c ← fx.compute r
      pure (some { value := c.value, ref := some r })
  else pure (some { value := (n.childAttr 0).value })

/-- A quoted string stands for itself, quotes included. -/
def quotedValue : FormulaAction := fun n => pure (some { value := .str n.text })

def expressionValue : FormulaAction := fun n =>
  if n.alternative = some 1 then pure (some { value := (n.childAttr 0).value })
  else combining Value.add 0 1 n

def assignTarget : FormulaAction := fun n => do
  match (n.childAttr 0).ref with
  | none => pure none
  | some r =>
    let v := (n.childAttr 2).value
    modify (·.assign r ⟨n.childText 2, v⟩)
    pure (some { value := v, ref := some r })

def announceExpression (fx : Effects) : FormulaAction := fun n => do
  let kind : ReportKind := if n.alternative = some 1 then .expression else .value
  match n.children[1]? with
  | none => pure none
  | some expr =>
    fx.announce kind expr
    pure (some {})

/-- Reads an assignment with its target as the context of relative references. -/
def assignmentScope : Scope Symbol Sheet Attribute where
  name := Text.ofString "AssignmentHead"
  target := .absoluteCell
  body := .assignmentBody
  enter n s := n.attr.ref.map fun r => { s with context := some r }
  leave outer inner := { inner with context := outer.context }

def rule (fx : Effects) : Symbol → FormulaRule
  | .epsilon => .epsilon
  | .integer => pattern "Integer" Scan.signedDigits integerAttribute
  | .positiveInteger => pattern "PositiveInteger" (Scan.run Text.isDigit) integerAttribute
  | .upperAlphaString => pattern "UpperAlphaString" (Scan.run Text.isUpper) fun _ => some {}
  | .stringNoQuote =>
    .token ⟨Text.ofString "StringNoQuote", false, Scan.run (· != Text.byte '"'), fun _ => some {}⟩
  | .rowMark => literal "r"
  | .columnMark => literal "c"
  | .times => literal "*"
  | .plus => literal "+"
  | .quoteMark => literal "\""
  | .becomes => literal ":="
  | .printValueWord => literal ReportKind.value.keyword
  | .printExprWord => literal ReportKind.expression.keyword
  | .columnLabel => production "ColumnLabel" [[.upperAlphaString]]
  | .rowNumber => production "RowNumber" [[.positiveInteger]] (some liftFirst)
  | .absoluteCell => production "AbsoluteCell" [[.columnLabel, .rowNumber]] (some resolveAbsolute)
  | .relativeCell =>
    production "RelativeCell" [[.rowMark, .integer, .columnMark, .integer]] (some resolveRelative)
  | .cellReference =>
    production "CellReference" [[.absoluteCell], [.relativeCell]] (some liftFirst)
  | .value => production "Value" [[.cellReference], [.integer]] (some (readValue fx))
  | .termTail =>
    production "TermTail" [[.times, .value, .termTail], [.epsilon]] (some (combining Value.mul 1 2))
  | .term => production "Term" [[.value, .termTail]] (some (combining Value.mul 0 1))
  | .expressionTail =>
    production "ExpressionTail" [[.plus, .term, .expressionTail], [.epsilon]]
      (some (combining Value.add 1 2))
  | .quotedString =>
    production "QuotedString" [[.quoteMark, .stringNoQuote, .quoteMark]] (some quotedValue)
  | .expression =>
    production "Expression" [[.term, .expressionTail], [.quotedString]] (some expressionValue)
  | .assignmentBody =>
    production "AssignmentHead" [[.absoluteCell, .becomes, .expression]] (some assignTarget)
  | .assignmentHead => .scope assignmentScope
  | .printHead =>
    production "PrintHead" [[.printValueWord, .expression], [.printExprWord, .expression]]
      (some (announceExpression fx))
  | .assignment => production "Assignment" [[.assignmentHead, .program]]
  | .print => production "Print" [[.printHead, .program]]
  | .program => production "Program" [[.assignment], [.print], [.epsilon]]

def grammar (fx : Effects) : Grammar Symbol Sheet Attribute := ⟨Symbol.all.length, rule fx⟩

def Symbol.name (s : Symbol) : Text := (rule .inert s).name

end Spreadsheet.Formula
