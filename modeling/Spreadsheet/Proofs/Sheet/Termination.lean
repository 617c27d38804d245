import Spreadsheet.Proofs.Grammar.Refinement
import Spreadsheet.Proofs.Sheet.FailedParse
import Spreadsheet.Sheet.Listing

/-! # Evaluation ends

Reading a cell parses its text, and parsing reads cells. With cycle detection this recursion is
well-founded whatever the cells hold and whichever are under evaluation: a read goes through stored
cells that are not yet under evaluation, and a parse takes from its text. So the depth that reads
and parses are given is never used up, any greater depth gives the same, and without any depth the
recursion has one solution.
-/
namespace Spreadsheet

open Formula Grammar

section Expressions

variable {P : Sheet → Prop} {fx fx' : Effects}

def Formula.expressionSymbols : List Symbol :=
  [.epsilon, .integer, .positiveInteger, .upperAlphaString, .stringNoQuote, .rowMark, .columnMark,
    .times, .plus, .quoteMark, .columnLabel, .rowNumber, .absoluteCell, .relativeCell,
    .cellReference, .value, .termTail, .term, .expressionTail, .quotedString, .expression]

theorem Formula.refines_resolveAbsolute
    (hnote : ∀ s level message, P s → P (s.note level message)) (n : Tree) :
    Refines P (resolveAbsolute n) (resolveAbsolute n) := by
  simp only [resolveAbsolute]
  cases Ref.ofLabel (n.childText 0) ((n.childAttr 1).value.int?.getD 0) with
  | ok r => exact Refines.pure _
  | error e => exact (Refines.modify fun s hs => hnote s _ _ hs).bind fun _ => Refines.pure _

theorem Formula.refines_resolveRelative (n : Tree) :
    Refines P (resolveRelative n) (resolveRelative n) := by
  refine Refines.get.bind fun s => ?_
  cases s.context with
  | none => exact Refines.pure _
  | some origin =>
    dsimp only
    split <;> exact Refines.pure _

theorem Formula.refines_readValue (hcompute : ∀ r, Refines P (fx.compute r) (fx'.compute r))
    (n : Tree) : Refines P (readValue fx n) (readValue fx' n) := by
  unfold readValue
  split
  · cases (n.childAttr 0).ref with
    | none => exact Refines.pure _
    | some r => exact (hcompute r).bind fun _ => Refines.pure _
  · exact Refines.pure _

theorem Formula.refines_expressionValue (n : Tree) :
    Refines P (expressionValue n) (expressionValue n) := by
  unfold expressionValue
  split <;> exact Refines.pure _

/-- The rules of expressions use nothing of the effects but how cells are read. -/
theorem Formula.refines_rule (hnote : ∀ s level message, P s → P (s.note level message))
    (hcompute : ∀ r, Refines P (fx.compute r) (fx'.compute r)) (symbol : Symbol)
    (hsymbol : symbol ∈ expressionSymbols) :
    (rule fx symbol).Refines P (· ∈ expressionSymbols) (rule fx' symbol) := by
  cases symbol with
  | epsilon => exact .epsilon
  | integer | positiveInteger | upperAlphaString | stringNoQuote | rowMark | columnMark | times
    | plus | quoteMark => exact .token _
  | columnLabel => exact .production (by decide) .none
  | rowNumber | cellReference | termTail | term | expressionTail | quotedString =>
    exact .production (by decide) (.some fun _ => Refines.pure _)
  | absoluteCell => exact .production (by decide) (.some (refines_resolveAbsolute hnote))
  | relativeCell => exact .production (by decide) (.some refines_resolveRelative)
  | value => exact .production (by decide) (.some (refines_readValue hcompute))
  | expression => exact .production (by decide) (.some refines_expressionValue)
  | becomes | printValueWord | printExprWord | assignmentBody | assignmentHead | printHead
    | assignment | print | program => exact absurd hsymbol (by decide)

end Expressions

namespace Sheet

variable {s : Sheet} {r : Ref} {depth : Nat} {fx fx' : Effects}

section Recursion

/-- What is not stored reads as empty and what is under evaluation as cut off; all else is handed
on. -/
def readOr (next : Cell → Computation Sheet Cell) (r : Ref) : Computation Sheet Cell := fun s =>
  match s.get? r with
  | none => some ({}, s)
  | some c => if s.isBeingEvaluated r then some (s.cutCycle r c) else next c s

/-- The text of a cell is parsed with the cell as context, and cells are read as the effects say. -/
def reparse (fx : Effects) (r : Ref) (c : Cell) : Computation Sheet Cell := fun s =>
  match (grammar fx).parse .expression c.expression (s.beginCell r) with
  | none => none
  | some (none, inner) => some (c, (s.endCell inner).staleNote r c)
  | some (some (n, _), inner) =>
    some ({ c with value := n.attr.value },
      (s.endCell inner).put r { c with value := n.attr.value })

theorem computeWithin_zero (r : Ref) : computeWithin 0 r = readOr (fun _ _ => none) r := by
  funext s
  unfold computeWithin readOr
  rfl

theorem computeWithin_succ (depth : Nat) (r : Ref) :
    computeWithin (depth + 1) r = readOr (reparse (within depth) r) r := by
  funext s
  unfold computeWithin readOr
  cases s.get? r with
  | none => rfl
  | some c =>
    dsimp only
    congr 1
    unfold reparse
    generalize hparse : (grammar (within depth)).parse .expression c.expression (s.beginCell r) = p
    unfold within at hparse
    rw [hparse]
    rcases p with - | ⟨- | ⟨n, rest⟩, inner⟩ <;> rfl

/-- Reading never turns cycle detection off, so it is an invariant of every read. -/
def Detecting (s : Sheet) : Prop := s.detectsCycles = true

/-- With cycle detection, what the first reads the second reads too. -/
def RefinesRead (read read' : Ref → Computation Sheet Cell) : Prop :=
  ∀ r, Refines Detecting (read r) (read' r)

theorem refines_readOr {next next' : Cell → Computation Sheet Cell}
    (hnext : ∀ c, Refines Detecting (next c) (next' c)) :
    Refines Detecting (readOr next r) (readOr next' r) := by
  intro s a t hs h
  unfold readOr at h ⊢
  cases hget : s.get? r with
  | none =>
    simp only [hget] at h ⊢
    cases h
    exact ⟨rfl, hs⟩
  | some c =>
    simp only [hget] at h ⊢
    by_cases hbusy : s.isBeingEvaluated r = true
    · rw [if_pos hbusy] at h ⊢
      cases h
      exact ⟨rfl, hs⟩
    · rw [if_neg hbusy] at h ⊢
      exact hnext c s a t hs h

theorem refines_parse_expression (hread : RefinesRead fx.compute fx'.compute) (text : Text) :
    Refines Detecting ((grammar fx).parse .expression text)
      ((grammar fx').parse .expression text) := by
  have hrules := refines_rule (P := Detecting) (fun _ _ _ hs => hs) hread
  exact refines_run hrules (Nat.le_refl _) (by decide)

theorem refines_reparse (hread : RefinesRead fx.compute fx'.compute) (c : Cell) :
    Refines Detecting (reparse fx r c) (reparse fx' r c) := by
  intro s a t hs h
  unfold reparse at h ⊢
  cases hparse : (grammar fx).parse .expression c.expression (s.beginCell r) with
  | none =>
    rw [hparse] at h
    cases h
  | some p =>
    obtain ⟨result, inner⟩ := p
    obtain ⟨hparse', hinner⟩ :=
      refines_parse_expression hread c.expression (s.beginCell r) result inner hs hparse
    rw [hparse] at h
    rw [hparse']
    cases result <;> cases h <;> exact ⟨rfl, hinner⟩

/-- More depth reads the same wherever less is enough. -/
theorem refines_computeWithin {depth' : Nat} (h : depth ≤ depth') :
    RefinesRead (computeWithin depth) (computeWithin depth') := by
  intro r
  induction depth generalizing depth' r with
  | zero =>
    rw [computeWithin_zero]
    cases depth' with
    | zero =>
      rw [computeWithin_zero]
      exact refines_readOr fun _ => Refines.none _
    | succ depth' =>
      rw [computeWithin_succ]
      exact refines_readOr fun _ => Refines.none _
  | succ depth ih =>
    obtain ⟨depth', rfl⟩ : ∃ m, depth' = m + 1 := ⟨depth' - 1, by omega⟩
    rw [computeWithin_succ, computeWithin_succ]
    exact refines_readOr (refines_reparse (ih (by omega)))

/-- Every depth of at least the stored cells that are not under evaluation reads the same. -/
theorem computeWithin_eq_compute (hon : s.detectsCycles = true)
    (h : s.cells.pending s.evaluating ≤ depth) : computeWithin depth r s = compute r s := by
  have hguard : s.Guarded s.evaluating r := .inl ⟨hon, rfl⟩
  obtain ⟨t, hrun, -⟩ := computesWithin_of_guarded hguard (Nat.le_refl _)
  have hsize := s.cells.pending_le_size s.evaluating
  rw [compute, (refines_computeWithin h r s _ t hon hrun).1,
    (refines_computeWithin hsize r s _ t hon hrun).1]

theorem refines_compute (depth : Nat) : RefinesRead (computeWithin depth) compute := by
  intro r s c t hon hrun
  have hmax := refines_computeWithin (Nat.le_max_left depth (s.cells.pending s.evaluating)) r s c t
    hon hrun
  rw [computeWithin_eq_compute hon (Nat.le_max_right _ _)] at hmax
  exact hmax

/-- With cycle detection, a cell is read by parsing its text, where cells are read in the same
way. -/
def IsRecursive (read : Ref → Computation Sheet Cell) : Prop :=
  ∀ r s, s.detectsCycles = true →
    read r s = readOr (reparse { effects with compute := read } r) r s

theorem isRecursive_compute : IsRecursive compute := by
  intro r s hon
  obtain ⟨t, hrun, -⟩ := compute_of_detects hon r
  have hdeeper := (refines_computeWithin (Nat.le_succ s.cells.size) r s _ t hon hrun).1
  rw [computeWithin_succ] at hdeeper
  rw [hrun]
  exact (refines_readOr (refines_reparse (refines_compute s.cells.size)) s _ t hon hdeeper).1.symm

theorem IsRecursive.refines {read : Ref → Computation Sheet Cell} (h : IsRecursive read)
    (depth : Nat) : RefinesRead (computeWithin depth) read := by
  intro r
  induction depth generalizing r with
  | zero =>
    intro s c t hon hrun
    rw [computeWithin_zero] at hrun
    rw [h r s hon]
    exact refines_readOr (fun _ => Refines.none _) s c t hon hrun
  | succ depth ih =>
    have hread : RefinesRead (within depth).compute (Effects.mk read effects.announce).compute := ih
    intro s c t hon hrun
    rw [computeWithin_succ] at hrun
    rw [h r s hon]
    exact refines_readOr (refines_reparse hread) s c t hon hrun

end Recursion

section Listing

theorem listCells_ends (hon : s.detectsCycles = true) (rs : List Ref) (out : Output) :
    ∃ result t, listCells rs out s = some (result, t) := by
  induction rs generalizing s out with
  | nil => exact ⟨_, s, rfl⟩
  | cons r rs ih =>
    obtain ⟨t, hrun, hafter⟩ := compute_of_detects hon r
    simp only [listCells, Bind.bind, StateT.bind, hrun, Option.bind_some]
    cases out.write (listing r (s.cells.shown s.evaluating r) ++ [Text.newline]) with
    | some out => exact ih (hafter.detectsCycles_eq.trans hon) out
    | none => exact ⟨_, t, rfl⟩

end Listing

/-- The recursion of reads and parses is solved by `compute`. On every sheet that detects cycles,
whatever is stored and whatever is under evaluation, a read ends; a depth of the stored cells not
under evaluation is enough for it, and every solution of the recursion reads the same. Every rule
ends at a depth given by the length of its input, every program ends, and so does every listing. -/
theorem evaluation_terminates : IsRecursive compute ∧
    ∀ s : Sheet, s.detectsCycles = true →
      (∀ r, ∃ c t, compute r s = some (c, t) ∧
        (∀ depth, s.cells.pending s.evaluating ≤ depth → computeWithin depth r s = some (c, t)) ∧
        ∀ read, IsRecursive read → read r s = some (c, t)) ∧
      (∀ symbol input, ∃ result t, ∀ fuel, 13 + input.length ≤ fuel →
        (grammar effects).run fuel symbol input s = some (result, t)) ∧
      (∀ src, ∃ outcome t, execute src s = some (outcome, t)) ∧
      ∀ out, ∃ result t, list out s = some (result, t) := by
  refine ⟨isRecursive_compute, fun s hon => ⟨fun r => ?_, fun symbol input => ?_, fun src => ?_,
    fun out => listCells_ends hon s.cells.refs out⟩⟩
  · obtain ⟨t, hrun, -⟩ := compute_of_detects hon r
    refine ⟨_, t, hrun, fun depth hdepth => ?_, fun read hread => ?_⟩
    · rw [computeWithin_eq_compute hon hdepth, hrun]
    · exact (hread.refines s.cells.size r s _ t hon hrun).1
  · obtain ⟨result, t, hrun, -⟩ := clean_run hon (Nat.le_refl (13 + input.length)) symbol
    exact ⟨result, t, fun fuel hfuel => run_mono hfuel hrun⟩
  · obtain ⟨t, hrun, -⟩ := execute_eq hon src
    exact ⟨_, t, hrun⟩

/-- Two cells that refer to each other, one of them also to itself, and bytes that are no text in a
cell that is under evaluation. -/
def looped : Sheet where
  cells := ((Cells.empty.insert ⟨0, 0⟩ ⟨Text.ofString "B1+r0c0", .int 1⟩).insert ⟨0, 1⟩
    ⟨Text.ofString "A1*C1", .int 2⟩).insert ⟨0, 2⟩ ⟨[0xff, 0x22, 0xc0], .int 3⟩
  detectsCycles := true
  evaluating := [⟨0, 2⟩]

theorem evaluation_terminates_looped : looped.detectsCycles = true ∧
    looped.cells.pending looped.evaluating = 2 ∧
    (∃ c t, compute ⟨0, 0⟩ looped = some (c, t) ∧ computeWithin 2 ⟨0, 0⟩ looped = some (c, t)) ∧
    (∃ result t, (grammar effects).run 20 .expression (Text.ofString "A1 + B1") looped =
      some (result, t)) ∧
    (∃ outcome t, execute (Text.ofString "A1 := A1 print_value B1") looped = some (outcome, t)) ∧
    ∃ result t, list {} looped = some (result, t) := by
  obtain ⟨hcompute, hrun, hexecute, hlist⟩ := evaluation_terminates.2 looped rfl
  have hpending : looped.cells.pending looped.evaluating = 2 := by decide +kernel
  refine ⟨rfl, hpending, ?_, ?_, hexecute _, hlist _⟩
  · obtain ⟨c, t, -, hdepth, hread⟩ := hcompute ⟨0, 0⟩
    exact ⟨c, t, hread compute evaluation_terminates.1, hdepth 2 hpending.le⟩
  · obtain ⟨result, t, hfuel⟩ := hrun .expression (Text.ofString "A1 + B1")
    exact ⟨result, t, hfuel 20 (by decide)⟩

/-- Without detection a cell that refers to itself uses up any depth. -/
example : (compute ⟨0, 0⟩
    { cells := Cells.empty.insert ⟨0, 0⟩ ⟨Text.ofString "A1", .int 1⟩ }).isNone := by
  decide +kernel

end Sheet
end Spreadsheet
