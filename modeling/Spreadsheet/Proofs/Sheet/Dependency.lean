import Spreadsheet.Proofs.Cells
import Spreadsheet.Proofs.Formula.Reading
import Mathlib.Logic.Relation
import Mathlib.Order.WellFounded

/-! # Dependencies and values

A stored cell depends on the cells that its expression refers to. The value of a cell is computed
over the values of its dependencies while a set of cells, those whose computation is under way,
counts as empty. Emptiness propagates: an expression with an empty factor is empty. So the cells of
such a set matter only where a computation comes back to them, and there it is empty anyway.
-/
namespace Spreadsheet

open Formula Relation

def Cell.formula? (r : Ref) (c : Cell) : Option (Expression Factor) :=
  (Expression.read (some r) c.expression).map (·.1)

namespace Cells

def formula? (cells : Cells) (r : Ref) : Option (Expression Factor) :=
  (cells.get? r).bind (Cell.formula? r)

/-- The cells that a cell refers to; none if it is not stored or its text cannot be read. -/
def dependencies (cells : Cells) (r : Ref) : List Ref :=
  match cells.formula? r with
  | none => []
  | some e => e.refs

/-- How many stored cells are not busy. -/
def pending (cells : Cells) (busy : List Ref) : Nat :=
  (cells.refs.filter fun r => r ∉ busy).length

theorem pending_cons_lt {cells : Cells} {busy : List Ref} {r : Ref} {c : Cell}
    (hget : cells.get? r = some c) (hr : r ∉ busy) :
    cells.pending (r :: busy) < cells.pending busy := by
  have hmem : r ∈ cells.refs.filter fun x => x ∉ busy := by
    simp [mem_refs, hget, hr]
  have heq : (cells.refs.filter fun x => x ∉ r :: busy) =
      (cells.refs.filter fun x => x ∉ busy).filter (· ≠ r) := by
    rw [List.filter_filter]
    refine List.filter_congr fun x _ => ?_
    by_cases h : x = r <;> simp [h]
  rw [pending, pending, heq]
  exact List.length_filter_lt_length_iff_exists.mpr ⟨r, hmem, by simp⟩

theorem pending_le_size (cells : Cells) (busy : List Ref) : cells.pending busy ≤ cells.size := by
  refine (List.length_filter_le _ _).trans ?_
  simp [refs, size]

/-- The value of a cell while the cells of `busy` count as empty. -/
def valueOf (cells : Cells) (busy : List Ref) (r : Ref) : Value :=
  match _hget : cells.get? r with
  | none => .empty
  | some c =>
    if _hr : r ∈ busy then .empty
    else
      match c.formula? r with
      | none => c.value
      | some e => e.eval fun x => cells.valueOf (r :: busy) x
  termination_by cells.pending busy
  decreasing_by exact pending_cons_lt _hget _hr

section Equations

variable {cells : Cells} {busy : List Ref} {r : Ref} {c : Cell}

theorem valueOf_unstored (hget : cells.get? r = none) : cells.valueOf busy r = .empty := by
  rw [valueOf]
  split
  · rfl
  · next hsome => rw [hget] at hsome; cases hsome

theorem valueOf_busy (hr : r ∈ busy) : cells.valueOf busy r = .empty := by
  rw [valueOf]
  split
  · rfl
  · rw [dif_pos hr]

theorem valueOf_unreadable (hget : cells.get? r = some c) (hr : r ∉ busy)
    (hformula : c.formula? r = none) : cells.valueOf busy r = c.value := by
  rw [valueOf]
  split
  · next hnone => rw [hget] at hnone; cases hnone
  · next d hd =>
    rw [hget] at hd
    cases hd
    rw [dif_neg hr, hformula]

theorem valueOf_formula {e : Expression Factor} (hget : cells.get? r = some c) (hr : r ∉ busy)
    (hformula : c.formula? r = some e) :
    cells.valueOf busy r = e.eval (cells.valueOf (r :: busy)) := by
  rw [valueOf]
  split
  · next hnone => rw [hget] at hnone; cases hnone
  · next d hd =>
    rw [hget] at hd
    cases hd
    rw [dif_neg hr, hformula]

/-- Induction along a computation: a cell that is read is busy while its dependencies are
computed. -/
theorem computation_induction (cells : Cells) {motive : List Ref → Ref → Prop}
    (unstored : ∀ busy r, cells.get? r = none → motive busy r)
    (cut : ∀ busy r c, cells.get? r = some c → r ∈ busy → motive busy r)
    (unreadable : ∀ busy r c, cells.get? r = some c → r ∉ busy → c.formula? r = none →
      motive busy r)
    (formula : ∀ busy r c e, cells.get? r = some c → r ∉ busy → c.formula? r = some e →
      (∀ x, motive (r :: busy) x) → motive busy r)
    (busy : List Ref) (r : Ref) : motive busy r := by
  induction hn : cells.pending busy using Nat.strong_induction_on generalizing busy r with
  | _ n ih =>
    cases hget : cells.get? r with
    | none => exact unstored busy r hget
    | some c =>
      by_cases hr : r ∈ busy
      · exact cut busy r c hget hr
      · cases hformula : c.formula? r with
        | none => exact unreadable busy r c hget hr hformula
        | some e =>
          exact formula busy r c e hget hr hformula
            fun x => ih _ (hn ▸ pending_cons_lt hget hr) _ x rfl

end Equations

section Busy

variable {cells : Cells} {busy busy' : List Ref} {r x y : Ref}

/-- With more cells busy a value stays as it is or becomes empty. -/
theorem valueOf_mono (cells : Cells) (h : busy ⊆ busy') (r : Ref) :
    cells.valueOf busy' r = .empty ∨ cells.valueOf busy' r = cells.valueOf busy r := by
  induction busy, r using computation_induction cells generalizing busy' with
  | unstored busy r hget => exact .inl (valueOf_unstored hget)
  | cut busy r c hget hr => exact .inl (valueOf_busy (h hr))
  | unreadable busy r c hget hr hformula =>
    by_cases hr' : r ∈ busy'
    · exact .inl (valueOf_busy hr')
    · exact .inr (by rw [valueOf_unreadable hget hr' hformula, valueOf_unreadable hget hr hformula])
  | formula busy r c e hget hr hformula ih =>
    by_cases hr' : r ∈ busy'
    · exact .inl (valueOf_busy hr')
    · rw [valueOf_formula hget hr' hformula, valueOf_formula hget hr hformula]
      by_cases hempty : ∃ x ∈ e.refs, cells.valueOf (r :: busy') x = .empty
      · obtain ⟨x, hx, hvalue⟩ := hempty
        exact .inl (Expression.eval_eq_empty hx hvalue)
      · refine .inr (Expression.eval_congr fun x hx => ?_)
        exact (ih x (List.cons_subset_cons r h)).resolve_left fun hvalue => hempty ⟨x, hx, hvalue⟩

theorem valueOf_congr_busy (h : ∀ x, x ∈ busy ↔ x ∈ busy') (r : Ref) :
    cells.valueOf busy r = cells.valueOf busy' r := by
  rcases valueOf_mono cells (fun x hx => (h x).mp hx) r with h₁ | h₁
  · rcases valueOf_mono cells (fun x hx => (h x).mpr hx) r with h₂ | h₂
    · rw [h₁, h₂]
    · exact h₂
  · exact h₁.symm

/-- A cell that is not busy is fed by its dependencies. -/
def Feeds (cells : Cells) (busy : List Ref) (y x : Ref) : Prop :=
  x ∉ busy ∧ y ∈ cells.dependencies x

theorem exists_formula_of_mem_dependencies (h : y ∈ cells.dependencies x) :
    ∃ c e, cells.get? x = some c ∧ c.formula? x = some e ∧ y ∈ e.refs := by
  simp only [dependencies, formula?] at h
  cases hget : cells.get? x with
  | none => simp [hget] at h
  | some c =>
    cases hformula : c.formula? x with
    | none => simp [hget, hformula] at h
    | some e => exact ⟨c, e, rfl, hformula, by simpa [hget, hformula] using h⟩

theorem mem_dependencies_of_formula {c : Cell} {e : Expression Factor} (hget : cells.get? x = some c)
    (hformula : c.formula? x = some e) : y ∈ cells.dependencies x ↔ y ∈ e.refs := by
  simp [dependencies, formula?, hget, hformula]

/-- What comes back to itself, or never ends, is empty. -/
theorem valueOf_eq_empty_of_not_acc (hx : ¬ Acc (cells.Feeds busy) x) (h : busy ⊆ busy') :
    cells.valueOf busy' x = .empty := by
  induction busy', x using computation_induction cells with
  | unstored busy' x hget => exact valueOf_unstored hget
  | cut busy' x c hget hr => exact valueOf_busy hr
  | unreadable busy' x c hget hr hformula =>
    obtain ⟨y, -, -, hdep⟩ := exists_not_acc_lt_of_not_acc hx
    obtain ⟨d, e, hd, he, -⟩ := exists_formula_of_mem_dependencies hdep
    rw [hget] at hd
    cases hd
    rw [hformula] at he
    cases he
  | formula busy' x c e hget hr hformula ih =>
    obtain ⟨y, hy, -, hdep⟩ := exists_not_acc_lt_of_not_acc hx
    rw [valueOf_formula hget hr hformula]
    exact Expression.eval_eq_empty ((mem_dependencies_of_formula hget hformula).mp hdep)
      (ih y hy (List.subset_cons_of_subset x h))

/-- `x` leads to `y` through cells that are not busy. -/
def Leads (cells : Cells) (busy : List Ref) (x y : Ref) : Prop :=
  ReflTransGen (fun a b => cells.Feeds busy b a) x y

theorem Leads.mono (h : busy ⊆ busy') (hxy : cells.Leads busy' x y) : cells.Leads busy x y := by
  induction hxy with
  | refl => exact .refl
  | tail _ hab ih => exact ih.tail ⟨fun ha => hab.1 (h ha), hab.2⟩

theorem not_acc_of_cycle {α : Type} {R : α → α → Prop} {a : α} (h : TransGen R a a) : ¬ Acc R a := by
  intro hacc
  induction hacc.transGen with
  | intro a _ ih => exact ih a h h hacc

/-- A busy cell makes a difference only to what leads to it. -/
theorem leads_of_valueOf_ne (h : cells.valueOf (r :: busy) x ≠ cells.valueOf busy x) :
    cells.Leads busy x r := by
  induction busy, x using computation_induction cells with
  | unstored busy x hget => exact absurd (by rw [valueOf_unstored hget, valueOf_unstored hget]) h
  | cut busy x c hget hx =>
    exact absurd (by rw [valueOf_busy hx, valueOf_busy (List.mem_cons_of_mem r hx)]) h
  | unreadable busy x c hget hx hformula =>
    by_cases hxr : x = r
    · exact hxr ▸ .refl
    · have hx' : x ∉ r :: busy := by simp [hxr, hx]
      exact absurd (by rw [valueOf_unreadable hget hx hformula,
        valueOf_unreadable hget hx' hformula]) h
  | formula busy x c e hget hx hformula ih =>
    by_cases hxr : x = r
    · exact hxr ▸ .refl
    · have hx' : x ∉ r :: busy := by simp [hxr, hx]
      rw [valueOf_formula hget hx hformula, valueOf_formula hget hx' hformula] at h
      obtain ⟨z, hz, hne⟩ : ∃ z ∈ e.refs,
          cells.valueOf (x :: r :: busy) z ≠ cells.valueOf (x :: busy) z := by
        by_contra hall
        push Not at hall
        exact h (Expression.eval_congr hall)
      have hswap : cells.valueOf (x :: r :: busy) z = cells.valueOf (r :: x :: busy) z :=
        valueOf_congr_busy (by simp [or_left_comm]) z
      have hlead := (ih z (hswap ▸ hne)).mono (List.subset_cons_self x busy)
      exact .head ⟨hx, (mem_dependencies_of_formula hget hformula).mpr hz⟩ hlead

/-- A busy cell makes no difference to what it leads to: where such a cell leads back, it is empty
either way. -/
theorem valueOf_cons_of_feeds (hr : r ∉ busy) (hy : y ∈ cells.dependencies r)
    (hx : cells.Leads busy y x) : cells.valueOf (r :: busy) x = cells.valueOf busy x := by
  by_contra hne
  have hback := leads_of_valueOf_ne hne
  have hcycle : TransGen (cells.Feeds busy) x x :=
    ((TransGen.tail' hback ⟨hr, hy⟩).trans_left hx).swap
  have hnot := not_acc_of_cycle hcycle
  rw [valueOf_eq_empty_of_not_acc hnot (List.subset_cons_self r busy),
    valueOf_eq_empty_of_not_acc hnot (List.Subset.refl busy)] at hne
  exact hne rfl

end Busy

end Cells
end Spreadsheet
