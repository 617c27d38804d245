import Spreadsheet.Proofs.Sheet.Evaluation

/-! # Cycle detection is exact

What a cell depends on is observed from the grammar itself: its expression is parsed over cells that
read as an environment says, and the cells read are collected. With detection on, a cell from which
dependencies go on forever is empty, and every other cell has the value of plain evaluation, which
is also its value with detection off.
-/
namespace Spreadsheet

open Formula

/-- Cells read as `env` says, and the cells read are collected among those under evaluation. -/
def Formula.Effects.observing (env : Ref → Value) : Effects :=
  { Effects.inert with
    compute := fun r s => some ({ value := env r }, { s with evaluating := s.evaluating ++ [r] }) }

/-- The value of a text as the expression of a cell, and the cells that it reads. -/
def Formula.interpret (env : Ref → Value) (r : Ref) (text : Text) : Option (Value × List Ref) :=
  match (grammar (.observing env)).parse .expression text { context := some r } with
  | some (some (n, _), s) => some (n.attr.value, s.evaluating)
  | _ => none

theorem Formula.passage_observing (env : Ref → Value) (r : Ref) :
    Passage (.observing env) (some r) (fun x => { value := env x }) (fun _ => True)
      fun xs s => s.context = some r ∧ s.evaluating = xs where
  context_eq h := h.1
  note _ h := h
  compute := by
    rintro xs x - s ⟨hcontext, rfl⟩
    exact ⟨_, rfl, hcontext, rfl⟩

theorem Formula.interpret_eq (env : Ref → Value) (r : Ref) (c : Cell) :
    interpret env r c.expression = (c.formula? r).map fun e => (e.eval env, e.refs) := by
  have hmatches := (passage_observing env r).matches_expression
  have hfuel : 7 + c.expression.length ≤ (grammar (.observing env)).depth c.expression :=
    (Nat.add_le_add_right (by decide) _).trans (Sheet.le_depth (.observing env) c.expression)
  unfold interpret
  cases hread : Expression.read (some r) c.expression with
  | none =>
    obtain ⟨t, hrun, -⟩ := hmatches.failure hfuel hread { context := some r } ⟨rfl, rfl⟩
    rw [Grammar.parse, hrun, Cell.formula?, hread]
    rfl
  | some p =>
    obtain ⟨t, hrun, -, ht⟩ :=
      hmatches.success hfuel hread (fun _ _ => trivial) { context := some r } ⟨rfl, rfl⟩
    rw [Grammar.parse, hrun, Cell.formula?, hread]
    simp [ht, Expression.tree_attr]

namespace Cells

def DependsOn (cells : Cells) (r x : Ref) : Prop :=
  ∃ c v refs, cells.get? r = some c ∧ interpret (fun _ => .empty) r c.expression = some (v, refs) ∧
    x ∈ refs

variable {cells : Cells} {r x : Ref} {c : Cell} {v : Value}

theorem dependsOn_iff : cells.DependsOn r x ↔ cells.Feeds [] x r := by
  constructor
  · rintro ⟨c, v, refs, hget, hread, hx⟩
    rw [interpret_eq] at hread
    obtain ⟨e, he, h⟩ := Option.map_eq_some_iff.mp hread
    cases h
    exact ⟨List.not_mem_nil, (mem_dependencies_of_formula hget he).mpr hx⟩
  · rintro ⟨-, hx⟩
    obtain ⟨c, e, hget, he, hx⟩ := exists_formula_of_mem_dependencies hx
    exact ⟨c, e.eval fun _ => .empty, e.refs, hget, by rw [interpret_eq, he]; rfl, hx⟩

end Cells

end Spreadsheet
