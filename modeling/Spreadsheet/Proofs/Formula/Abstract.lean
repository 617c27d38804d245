import Spreadsheet.Proofs.Formula.RoundTrip
import Spreadsheet.Proofs.Text.Decimal

/-! # Abstract syntax

Programs without spelling: integers are numbers, and cells are a label with a row number or a
distance. Each has its words, in decimal, and a value over the values of the cells. A well-formed
program denotes valid statements with the same words and the same values.
-/
namespace Spreadsheet.Formula

/-- An absolute cell: a column label and a row number counted from one. -/
structure CellName where
  label : Text
  number : Nat
  deriving DecidableEq, Repr

namespace CellName

def words (p : CellName) : List Text := [p.label, Decimal.ofNat p.number]

/-- The cell, unless the label denotes no column. -/
def ref? (p : CellName) : Option Ref :=
  match Column.ofLabel p.label with
  | .ok col => some ⟨Int64.ofNat p.number - 1, col⟩
  | .error _ => none

def WellFormed (p : CellName) : Prop :=
  (∃ col, Column.ofLabel p.label = .ok col) ∧ p.number < 2 ^ 63

end CellName

inductive Operand where
  | literal (i : Int64)
  | absolute (p : CellName)
  | relative (rows cols : Int64)
  deriving DecidableEq, Repr

namespace Operand

def words : Operand → List Text
  | .literal i => [Decimal.ofInt64 i]
  | .absolute p => p.words
  | .relative rows cols =>
    [Text.ofString "r", Decimal.ofInt64 rows, Text.ofString "c", Decimal.ofInt64 cols]

def ref? (origin : Option Ref) : Operand → Option Ref
  | .literal _ => none
  | .absolute p => p.ref?
  | .relative rows cols => origin.bind fun r => r.shift? rows cols

def value (origin : Option Ref) (env : Ref → Value) : Operand → Value
  | .literal i => .int i
  | .absolute p => (p.ref?.map env).getD .empty
  | .relative rows cols => ((origin.bind fun r => r.shift? rows cols).map env).getD .empty

/-- Labels denote columns, row numbers fit a word, and distances lead to a cell of the grid. -/
def WellFormed (origin : Option Ref) : Operand → Prop
  | .literal _ => True
  | .absolute p => p.WellFormed
  | .relative rows cols => ∃ r, (origin.bind fun r => r.shift? rows cols) = some r

end Operand

namespace Expression

def spelling (e : Expression Operand) : Text := (e.words Operand.words).flatten

def valueFrom (origin : Option Ref) (env : Ref → Value) (e : Expression Operand) : Value :=
  (e.map (Operand.value origin env)).value

def WellFormed (origin : Option Ref) : Expression Operand → Prop
  | .sum terms => ∀ c ∈ terms.toList, ∀ o ∈ c.toList, o.WellFormed origin
  | .quoted body => body ≠ [] ∧ Text.byte '"' ∉ body

/-- The cell that an expression refers to, if a single reference is all of it. -/
def cell? (origin : Option Ref) : Expression Operand → Option Ref
  | .sum ⟨⟨o, []⟩, []⟩ => o.ref? origin
  | _ => none

end Expression

inductive Instruction where
  | assign (target : CellName) (e : Expression Operand)
  | print (kind : ReportKind) (e : Expression Operand)
  deriving DecidableEq, Repr

namespace Instruction

def words : Instruction → List Text
  | .assign target e => target.words ++ Text.ofString ":=" :: e.words Operand.words
  | .print kind e => Text.ofString kind.keyword :: e.words Operand.words

def target? : Instruction → Option Ref
  | .assign target _ => target.ref?
  | .print _ _ => none

/-- The references of an assignment are taken from its target; a print statement has no place of its
own, so no distance leads anywhere from it. -/
def WellFormed : Instruction → Prop
  | .assign target e => target.WellFormed ∧ e.WellFormed target.ref?
  | .print _ e => e.WellFormed none

end Instruction

section Denotation

variable {origin : Option Ref}

def CellName.address (p : CellName) : Address :=
  ⟨p.label, ⟨Decimal.ofNat p.number, Int64.ofNat p.number⟩, p.ref?.getD ⟨0, 0⟩⟩

def Operand.factor (origin : Option Ref) : Operand → Factor
  | .literal i => .integer ⟨Decimal.ofInt64 i, i⟩
  | .absolute p => .absolute p.address
  | .relative rows cols => .relative ⟨Decimal.ofInt64 rows, rows⟩ ⟨Decimal.ofInt64 cols, cols⟩
    ((origin.bind fun r => r.shift? rows cols).getD ⟨0, 0⟩)

def Instruction.statement : Instruction → Statement
  | .assign target e => .assign target.address (e.map (Operand.factor target.ref?))
  | .print kind e => .print kind (e.map (Operand.factor none))

theorem Operand.words_factor (o : Operand) : (o.factor origin).words = o.words := by
  cases o <;> rfl

theorem Expression.words_factor (e : Expression Operand) :
    (e.map (Operand.factor origin)).words Factor.words = e.words Operand.words := by
  rw [Expression.words_map]
  congr 1
  funext o
  exact Operand.words_factor o

theorem Expression.text_factor (e : Expression Operand) :
    (e.map (Operand.factor origin)).text = e.spelling := by
  rw [Expression.text, Expression.words_factor, Expression.spelling]

theorem Instruction.words_statement (c : Instruction) : c.statement.words = c.words := by
  cases c with
  | assign target e =>
    simp only [Instruction.statement, Statement.words, Instruction.words, Expression.words_factor]
    rfl
  | print kind e =>
    simp only [Instruction.statement, Statement.words, Instruction.words, Expression.words_factor]

theorem isUpper_of_readFrom {label t : Text} {n m : Int64}
    (h : Column.readFrom label n t = .ok m) : ∀ b ∈ t, Text.isUpper b := by
  induction t generalizing n with
  | nil => simp
  | cons b r ih =>
    simp only [Column.readFrom] at h
    split at h
    · cases h
    · next hb =>
      split at h
      · cases h
      · simp only [List.mem_cons, forall_eq_or_imp]
        exact ⟨by simpa using hb, ih h⟩

theorem isRun_of_ofLabel {label : Text} {col : Int64} (h : Column.ofLabel label = .ok col) :
    IsRun Text.isUpper label := by
  cases label with
  | nil => cases h
  | cons b r =>
    refine ⟨List.cons_ne_nil b r, ?_⟩
    rw [Column.ofLabel] at h
    cases hread : Column.readFrom (b :: r) 0 (b :: r) with
    | error e => simp [hread, Except.map] at h
    | ok m => exact isUpper_of_readFrom hread

theorem isSigned_ofInt64 (i : Int64) : IsSigned (Decimal.ofInt64 i) := by
  unfold Decimal.ofInt64
  cases i.toInt with
  | ofNat n => exact .inl ⟨Decimal.ofNat_ne_nil, Decimal.isDigit_of_mem_ofNat⟩
  | negSucc n => exact .inr ⟨_, rfl, Decimal.ofNat_ne_nil, Decimal.isDigit_of_mem_ofNat⟩

theorem CellName.valid_address {p : CellName} (hp : p.WellFormed) :
    p.address.Valid ∧ p.ref? = some p.address.ref := by
  obtain ⟨⟨col, hcol⟩, hnumber⟩ := hp
  have href : p.ref? = some ⟨Int64.ofNat p.number - 1, col⟩ := by
    rw [CellName.ref?, hcol]
  have hread : Decimal.read (Decimal.ofNat p.number) = .ok (Int64.ofNat p.number) := by
    have hbound : p.number < Decimal.bound := hnumber
    rw [Decimal.read_ofNat, Decimal.ofMagnitude, if_neg (by decide), if_pos hbound]
    rfl
  have haddress : p.address.ref = ⟨Int64.ofNat p.number - 1, col⟩ := by
    rw [CellName.address, href, Option.getD_some]
  have hnumeral : p.address.number.word ≠ [] ∧ ∀ b ∈ p.address.number.word, Text.isDigit b :=
    ⟨Decimal.ofNat_ne_nil, Decimal.isDigit_of_mem_ofNat⟩
  refine ⟨⟨isRun_of_ofLabel hcol, ⟨hnumeral, hread⟩, ?_⟩, by rw [href, haddress]⟩
  rw [haddress]
  change Ref.ofLabel p.label (Int64.ofNat p.number) = _
  rw [Ref.ofLabel, hcol]
  rfl

theorem Operand.valid_factor {o : Operand} (ho : o.WellFormed origin) :
    (o.factor origin).Valid origin := by
  cases o with
  | literal i => exact ⟨isSigned_ofInt64 i, Decimal.read_ofInt64 i⟩
  | absolute p => exact (CellName.valid_address ho).1
  | relative rows cols =>
    obtain ⟨r, hr⟩ := ho
    obtain ⟨x, hx, hshift⟩ := Option.bind_eq_some_iff.mp hr
    refine ⟨⟨isSigned_ofInt64 rows, Decimal.read_ofInt64 rows⟩,
      ⟨isSigned_ofInt64 cols, Decimal.read_ofInt64 cols⟩, x, hx, ?_⟩
    rw [hr]
    exact hshift

theorem Operand.value_factor {o : Operand} (ho : o.WellFormed origin) (env : Ref → Value) :
    (o.factor origin).value env = o.value origin env := by
  cases o with
  | literal i => rfl
  | absolute p =>
    simp only [Operand.factor, Factor.value, Operand.value, (CellName.valid_address ho).2,
      Option.map_some, Option.getD_some]
  | relative rows cols =>
    obtain ⟨r, hr⟩ := ho
    simp only [Operand.factor, Factor.value, Operand.value, hr, Option.map_some, Option.getD_some]

theorem Operand.head_refs_factor {o : Operand} (ho : o.WellFormed origin) :
    (o.factor origin).refs.head? = o.ref? origin := by
  cases o with
  | literal i => rfl
  | absolute p => exact (CellName.valid_address ho).2.symm
  | relative rows cols =>
    obtain ⟨r, hr⟩ := ho
    simp only [Operand.factor, Factor.refs, Operand.ref?, hr, Option.getD_some, List.head?_cons]

theorem Expression.valid_factor {e : Expression Operand} (he : e.WellFormed origin) :
    (e.map (Operand.factor origin)).Valid origin := by
  cases e with
  | sum terms =>
    intro c hc f hf
    rw [Chain.toList_map] at hc
    obtain ⟨d, hd, rfl⟩ := List.mem_map.mp hc
    rw [Chain.toList_map] at hf
    obtain ⟨o, ho, rfl⟩ := List.mem_map.mp hf
    exact Operand.valid_factor (he d hd o ho)
  | quoted body =>
    refine ⟨he.1, fun b hb => ?_⟩
    have hne : b ≠ Text.byte '"' := fun h => he.2 (h ▸ hb)
    simpa using hne

theorem Expression.wellFormed_factors {e : Expression Operand} (he : e.WellFormed origin) :
    ∀ o ∈ e.factors, o.WellFormed origin := by
  cases e with
  | sum terms =>
    intro o ho
    obtain ⟨c, hc, ho⟩ := List.mem_flatMap.mp ho
    exact he c hc o ho
  | quoted body => simp [Expression.factors]

theorem Expression.eval_factor {e : Expression Operand} (he : e.WellFormed origin)
    (env : Ref → Value) : (e.map (Operand.factor origin)).eval env = e.valueFrom origin env := by
  rw [Expression.eval, Expression.map_map, Expression.valueFrom]
  congr 1
  exact Expression.map_congr fun o ho =>
    Operand.value_factor (Expression.wellFormed_factors he o ho) env

theorem Instruction.valid_statement {c : Instruction} (hc : c.WellFormed) :
    c.statement.Valid none := by
  cases c with
  | assign target e =>
    obtain ⟨hvalid, href⟩ := CellName.valid_address hc.1
    exact ⟨hvalid, href ▸ Expression.valid_factor hc.2⟩
  | print kind e => exact Expression.valid_factor hc

end Denotation

end Spreadsheet.Formula
