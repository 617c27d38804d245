import Spreadsheet.Ref
import Spreadsheet.Value

/-! # Symbols of the formula language

Tokens, then references, expressions and statements. Nodes of references carry a cell, nodes of
expressions a value.
-/
namespace Spreadsheet.Formula

inductive Symbol where
  | epsilon
  | integer
  | positiveInteger
  | upperAlphaString
  | stringNoQuote
  | rowMark
  | columnMark
  | times
  | plus
  | quoteMark
  | becomes
  | printValueWord
  | printExprWord
  | columnLabel
  | rowNumber
  | absoluteCell
  | relativeCell
  | cellReference
  | value
  | termTail
  | term
  | expressionTail
  | quotedString
  | expression
  | assignmentBody
  | assignmentHead
  | printHead
  | assignment
  | print
  | program
  deriving DecidableEq, Repr

namespace Symbol

def all : List Symbol :=
  [.epsilon, .integer, .positiveInteger, .upperAlphaString, .stringNoQuote, .rowMark, .columnMark,
    .times, .plus, .quoteMark, .becomes, .printValueWord, .printExprWord, .columnLabel, .rowNumber,
    .absoluteCell, .relativeCell, .cellReference, .value, .termTail, .term, .expressionTail,
    .quotedString, .expression, .assignmentBody, .assignmentHead, .printHead, .assignment, .print,
    .program]

theorem mem_all (s : Symbol) : s ∈ all := by cases s <;> decide

end Symbol

structure Attribute where
  value : Value := .empty
  ref : Option Ref := none
  deriving DecidableEq, Repr

instance : Inhabited Attribute := ⟨{}⟩

end Spreadsheet.Formula
