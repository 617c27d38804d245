import Spreadsheet.Proofs.Formula.Shape
import Spreadsheet.Proofs.Sheet.Termination

/-! # Nothing is missing

Strict parsing has no result as soon as an action reaches for a child, a reference or an integer
that is not there: in an alternative that is kept or abandoned, while a cell is read, or while a
print statement finds out which cell it names. It is the same as parsing, on every sheet; and with
cycle detection parsing ends.
-/
namespace Spreadsheet

open Formula Grammar

theorem Formula.strictGrammar_parse (fx : Effects) :
    (strictGrammar fx).parse = (grammar fx).parse :=
  funext fun symbol => funext fun input => parse_withActions (shapes_rule fx) symbol input

namespace Sheet

def strictReparse (fx : Effects) (r : Ref) (c : Cell) : Computation Sheet Cell := fun s =>
  match (strictGrammar fx).parse .expression c.expression (s.beginCell r) with
  | none => none
  | some (none, inner) => some (c, (s.endCell inner).staleNote r c)
  | some (some (n, _), inner) =>
    some ({ c with value := n.attr.value },
      (s.endCell inner).put r { c with value := n.attr.value })

/-- A cell is read strictly, and so are all that it refers to. -/
def strictComputeWithin : (depth : Nat) → Ref → Computation Sheet Cell
  | 0, r => readOr (fun _ _ => none) r
  | depth + 1, r =>
    readOr (strictReparse { Effects.inert with compute := strictComputeWithin depth } r) r

def strictCompute (r : Ref) : Computation Sheet Cell := fun s => strictComputeWithin s.cells.size r s

/-- A text that is a reference has to give the cell. -/
def strictReferredCell (t : Text) : Computation Sheet (Option Ref) := do
  match ← (strictGrammar .inert).parse .cellReference t with
  | some (n, []) => do
    let r ← demand n.attr.ref
    pure (some r)
  | _ => pure none

def strictAnnounce (kind : ReportKind) (expr : Tree) : Computation Sheet Unit := do
  let cell ← strictReferredCell expr.text
  let shown : Cell ← match cell with
    | some r => strictCompute r
    | none => pure ⟨expr.text, expr.attr.value⟩
  let text := match kind with
    | .value => shown.value.text
    | .expression => shown.expression
  modify (·.print ⟨kind, expr.text, cell, text⟩)

def strictEffects : Effects := ⟨strictCompute, strictAnnounce⟩

theorem strictReparse_eq (fx : Effects) : strictReparse fx = reparse fx := by
  funext r c s
  rcases h : (grammar fx).parse .expression c.expression (s.beginCell r) with
    - | ⟨- | ⟨n, rest⟩, inner⟩ <;>
    simp only [strictReparse, reparse, strictGrammar_parse, h]

theorem strictComputeWithin_eq (depth : Nat) : strictComputeWithin depth = computeWithin depth := by
  induction depth with
  | zero =>
    funext r
    rw [computeWithin_zero]
    rfl
  | succ depth ih =>
    funext r
    rw [computeWithin_succ, strictComputeWithin, ih, strictReparse_eq]
    rfl

theorem strictCompute_eq : strictCompute = compute := by
  funext r s
  rw [strictCompute, strictComputeWithin_eq, compute]

/-- What matches as a reference carries one. -/
theorem strictReferredCell_eq (t : Text) : strictReferredCell t = referredCell t := by
  have hshape := (run_shapes (shapes_rule .inert) ((grammar .inert).depth t) .cellReference t).2
  rw [strictReferredCell, strictGrammar_parse]
  refine hshape.bind_congr fun result hresult => ?_
  cases result with
  | none => rfl
  | some m =>
    obtain ⟨n, rest⟩ := m
    have hfits : n.attr.Fits .cellReference n.alternative := (hresult (n, rest) rfl).fits
    obtain ⟨r, hr⟩ := Option.isSome_iff_exists.mp hfits.ref_isSome
    cases rest with
    | nil => simp only [hr, demand_some, pure_bind]
    | cons b rest => rfl

theorem strictAnnounce_eq : strictAnnounce = announce := by
  funext kind expr
  rw [strictAnnounce, strictReferredCell_eq]
  refine bind_congr fun cell => ?_
  cases cell <;> cases kind <;> simp only [strictCompute_eq]

theorem strictEffects_eq : strictEffects = effects := by
  rw [strictEffects, strictCompute_eq, strictAnnounce_eq, effects]

/-- Every rule ends on every input, whatever the sheet holds and whatever its context, and it ends
in the same way if the actions are strict, also those that run while cells are read and reported on.
In every match, at any depth and however cells are read, each node has a child for every symbol of
its alternative; it carries a reference exactly if it is a cell, an assignment or a value at its
first alternative, and an integer if it is a row number or an integer. So a cell that matches as the
target of an assignment always becomes the context of the assignment. -/
theorem parse_misses_nothing (s : Sheet) (hon : s.detectsCycles = true) (symbol : Symbol)
    (input : Text) :
    (∃ result t, (grammar effects).parse symbol input s = some (result, t) ∧
      (strictGrammar strictEffects).parse symbol input s = some (result, t)) ∧
    ∀ fx fuel n rest t, (grammar fx).run fuel symbol input s = some (some (n, rest), t) →
      n.symbol = symbol.node ∧ (∀ m ∈ n.nodes, Complete m) ∧
      (symbol = assignmentScope.target →
        ∃ r, n.attr.ref = some r ∧ assignmentScope.enter n t = some { t with context := some r }) := by
  constructor
  · obtain ⟨result, t, hrun, -⟩ := clean_run hon (le_depth effects input) symbol
    refine ⟨result, t, hrun, ?_⟩
    rw [strictEffects_eq, strictGrammar_parse]
    exact hrun
  · intro fx fuel n rest t hrun
    have hshape : Shape symbol n :=
      (run_shapes (shapes_rule fx) fuel symbol input).2 s _ t hrun (n, rest) rfl
    refine ⟨hshape.symbol_eq, hshape.complete, ?_⟩
    rintro rfl
    obtain ⟨r, hr⟩ := Option.isSome_iff_exists.mp hshape.fits.ref_isSome
    refine ⟨r, hr, ?_⟩
    change n.attr.ref.map _ = _
    rw [hr, Option.map_some]

/-- An assignment over cells that refer to each other, a report on its target, and one on a product,
whose first factor is read as a reference in vain. -/
def assorted : Text := Text.ofString "D2 := r-1c-3 * 2 + B1 print_value D2 print_expr 3 * E1"

theorem parse_misses_nothing_assorted : looped.detectsCycles = true ∧
    (∃ n t, (grammar effects).parse .program assorted looped = some (some (n, []), t) ∧
      (strictGrammar strictEffects).parse .program assorted looped = some (some (n, []), t) ∧
      ∀ m ∈ n.nodes, Complete m) ∧
    ∃ n t r, (grammar effects).run 3 .absoluteCell assorted looped =
        some (some (n, Text.ofString " := r-1c-3 * 2 + B1 print_value D2 print_expr 3 * E1"), t) ∧
      n.attr.ref = some r ∧ assignmentScope.enter n t = some { t with context := some r } := by
  refine ⟨rfl, ?_, ?_⟩
  · obtain ⟨⟨result, t, hparse, hstrict⟩, hcomplete⟩ :=
      parse_misses_nothing looped rfl .program assorted
    have hrest : ((grammar effects).parse .program assorted looped).map (·.1.map (·.2)) =
        some (some []) := by decide +kernel
    rw [hparse, Option.map_some, Option.some.injEq] at hrest
    obtain ⟨⟨n, rest⟩, rfl, rfl⟩ := Option.map_eq_some_iff.mp hrest
    exact ⟨n, t, hparse, hstrict, (hcomplete effects _ n _ t hparse).2.1⟩
  · have hrest : ((grammar effects).run 3 .absoluteCell assorted looped).map (·.1.map (·.2)) =
        some (some (Text.ofString " := r-1c-3 * 2 + B1 print_value D2 print_expr 3 * E1")) := by
      decide +kernel
    obtain ⟨⟨result, t⟩, hrun, hresult⟩ := Option.map_eq_some_iff.mp hrest
    obtain ⟨⟨n, rest⟩, rfl, rfl⟩ := Option.map_eq_some_iff.mp hresult
    obtain ⟨-, -, henter⟩ :=
      (parse_misses_nothing looped rfl .absoluteCell assorted).2 effects 3 n _ t hrun
    obtain ⟨r, hr, hentered⟩ := henter rfl
    exact ⟨n, t, r, hrun, hr, hentered⟩

end Sheet
end Spreadsheet
