import Spreadsheet.Proofs.Sheet.Arithmetic
import Spreadsheet.Proofs.Sheet.Caches

/-! # Reading after an assignment

An assignment computes its expression over the cells as they were, with the target not under way,
and stores the value. A read of the target computes the text again over the cells as they are then.
If the expression does not come back to the target, both evaluations see the same cells. On the way
to a cell its own expression plays no part, so that what depends on the target is the same before
and after.
-/
namespace Spreadsheet

open Formula Grammar Relation

namespace Cells

variable {cells s t : Cells} {busy : List Ref} {r x : Ref} {c : Cell} {e : Expression Factor}

theorem dependencies_insert_of_ne (hx : x ≠ r) :
    (cells.insert r c).dependencies x = cells.dependencies x := by
  simp [dependencies, formula?, get?_insert, hx]

theorem Leads.of_dependencies_eq (hdeps : ∀ y, y ≠ r → s.dependencies y = t.dependencies y)
    (h : s.Leads busy x r) : t.Leads busy x r := by
  induction h using ReflTransGen.head_induction_on with
  | refl => exact .refl
  | @head a b hab _ ih =>
    by_cases ha : a = r
    · subst ha
      exact .refl
    · exact .head ⟨hab.1, hdeps a ha ▸ hab.2⟩ ih

/-- What leads to a cell does so whatever is stored in the cell. -/
theorem leads_insert_iff : (cells.insert r c).Leads busy x r ↔ cells.Leads busy x r :=
  ⟨Leads.of_dependencies_eq fun _ hy => dependencies_insert_of_ne hy,
    Leads.of_dependencies_eq fun _ hy => (dependencies_insert_of_ne hy).symm⟩

/-- A stored cell makes a difference only to what leads to it. -/
theorem valueOf_insert_of_not_leads (h : ¬ cells.Leads [] x r) :
    (cells.insert r c).valueOf busy x = cells.valueOf busy x := by
  have hget (y : Ref) (hy : ¬ cells.Leads [] y r) : (cells.insert r c).get? y = cells.get? y := by
    rw [get?_insert, if_neg]
    rintro rfl
    exact hy .refl
  induction busy, x using computation_induction cells with
  | unstored busy x hx => rw [valueOf_unstored hx, valueOf_unstored ((hget x h).trans hx)]
  | cut busy x d hx hbusy => rw [valueOf_busy hbusy, valueOf_busy hbusy]
  | unreadable busy x d hx hbusy hformula =>
    rw [valueOf_unreadable hx hbusy hformula,
      valueOf_unreadable ((hget x h).trans hx) hbusy hformula]
  | formula busy x d e hx hbusy hformula ih =>
    rw [valueOf_formula hx hbusy hformula, valueOf_formula ((hget x h).trans hx) hbusy hformula]
    refine Expression.eval_congr fun y hy => ih y fun hlead => h ?_
    exact .head ⟨List.not_mem_nil, (mem_dependencies_of_formula hx hformula).mpr hy⟩ hlead

theorem shown_insert_of_not_leads (h : ¬ cells.Leads [] x r) :
    (cells.insert r c).shown busy x = cells.shown busy x := by
  have hx : x ≠ r := by
    rintro rfl
    exact h .refl
  rw [shown, shown, get?_insert, if_neg hx, valueOf_insert_of_not_leads h]

/-- A read of a cell computes the expression that was stored in it over the cells as they were. -/
theorem shown_insert_self (he : e.Valid (some r)) (hr : r ∉ busy)
    (hself : ∀ y ∈ e.refs, ¬ cells.Leads [] y r) (v : Value) :
    (cells.insert r ⟨e.text, v⟩).shown busy r = ⟨e.text, e.eval (cells.valueOf busy)⟩ := by
  have hget : (cells.insert r ⟨e.text, v⟩).get? r = some ⟨e.text, v⟩ := by
    rw [get?_insert, if_pos rfl]
  rw [shown, hget, valueOf_formula hget hr (Cell.formula?_text he v)]
  simp only [Cell.mk.injEq, true_and]
  -- the read marks the cell as under way, which the assignment did not
  refine Expression.eval_congr fun y hy => ?_
  have hunmarked : (cells.insert r ⟨e.text, v⟩).valueOf (r :: busy) y =
      (cells.insert r ⟨e.text, v⟩).valueOf busy y := by
    by_contra hne
    have hlead := (leads_of_valueOf_ne hne).mono (List.nil_subset busy)
    exact hself y hy (leads_insert_iff.mp hlead)
  rw [hunmarked, valueOf_insert_of_not_leads (hself y hy)]

/-- An assignment stores its text and refreshes caches, which are no sources. -/
theorem sameSources_assign (cells : Cells) (busy : List Ref) (target : Address)
    (e : Expression Factor) :
    (cells.insert target.ref ⟨e.text, e.eval (cells.valueOf busy)⟩).SameSources
      (cells.step busy (.assign target e)) :=
  (cells.sameSources_refresh busy _).insert target.ref _

theorem transGen_dependsOn_iff (hx : x ≠ r) : TransGen cells.DependsOn x r ↔ cells.Leads [] x r := by
  rw [leads_nil_iff, reflTransGen_iff_eq_or_transGen, or_iff_right (Ne.symm hx)]

/-- Where a rank falls along dependencies it falls along all ways. -/
theorem rank_lt_of_transGen {rank : Ref → Nat}
    (hrank : ∀ r ∈ cells.refs, ∀ y ∈ cells.dependencies r, rank y < rank r)
    (h : TransGen cells.DependsOn r x) : rank x < rank r := by
  have hstep (a b : Ref) (hab : cells.DependsOn a b) : rank b < rank a := by
    obtain ⟨-, hb⟩ := dependsOn_iff.mp hab
    obtain ⟨d, -, hget, -⟩ := exists_formula_of_mem_dependencies hb
    exact hrank a (mem_refs.mpr ⟨d, hget⟩) b hb
  induction h with
  | single hab => exact hstep _ _ hab
  | tail _ hab ih => exact (hstep _ _ hab).trans ih

end Cells

namespace Sheet

variable {s t : Sheet} {context : Option Ref} {src rest : Text} {n : Tree}

/-- What an assignment that is accepted was, and what it left behind. -/
theorem exists_of_parse_assignmentHead (hon : s.detectsCycles = true)
    (hparse : parse .assignmentHead context src s = some (some (n, rest), t)) :
    ∃ target e, Statement.read none src = some (.assign target e, rest) ∧
      e.Valid (some target.ref) ∧
      n = (Statement.assign target e).tree (s.cells.valueOf s.evaluating) ∧
      s.After (s.cells.step s.evaluating (.assign target e)) [] t := by
  have hfuel : 9 + src.length ≤ (grammar effects).depth src := by
    have := le_depth effects src
    omega
  obtain ⟨st, hread, rfl, hafter⟩ := exists_of_parse_statement
    (fun st rest hread => gives_assignmentHead hon hfuel hread)
    (fun hread => gives_assignmentHead_none hon hfuel hread) hparse
  have hstatement : Statement.read none src = some (st, rest) := by
    rw [Statement.read, hread, Option.some_or]
  obtain ⟨target, t₁, t₂, e, -, -, he, rfl⟩ := Statement.readAssignment_eq_some hread
  exact ⟨target, e, hstatement, Expression.valid_of_read he, rfl, hafter⟩

/-- Right after an assignment a read of the target gives what was stored, unless the new expression
depends on the target, and a read of any other cell that does not depend on the target gives what it
gave before. The sheet right after the assignment is the one that the execution goes on from. -/
theorem parse_assignmentHead_fresh (hon : s.detectsCycles = true)
    (hparse : parse .assignmentHead context src s = some (some (n, rest), t)) :
    ∃ address mark expr target,
      n.children = [address, mark, expr] ∧ address.attr.ref = some target ∧
      (∃ u, parse .expression (some target) expr.text s = some (some (expr, []), u)) ∧
      t.get? target = some ⟨expr.text, expr.attr.value⟩ ∧
      (∃ outcome u u', execute src s = some (outcome, u) ∧ execute rest t = some (outcome, u') ∧
        u = { u' with journal := u.journal } ∧
        (outcome.rest = rest → u = { t with journal := u.journal })) ∧
      (target ∉ s.evaluating → ¬ TransGen t.cells.DependsOn target target →
        ∃ u, compute target t = some (⟨expr.text, expr.attr.value⟩, u)) ∧
      ∀ x, x ≠ target →
        (TransGen t.cells.DependsOn x target ↔ TransGen s.cells.DependsOn x target) ∧
        (¬ TransGen t.cells.DependsOn x target →
          ∃ c u u', compute x s = some (c, u) ∧ compute x t = some (c, u')) := by
  obtain ⟨target, e, hread, he, rfl, hafter⟩ := exists_of_parse_assignmentHead hon hparse
  have hsources := s.cells.sameSources_assign s.evaluating target e
  rw [← hafter.cells_eq] at hsources
  have hleads (x : Ref) : t.cells.Leads [] x target.ref ↔ s.cells.Leads [] x target.ref :=
    hsources.leads_iff.symm.trans Cells.leads_insert_iff
  have hcompute (x : Ref) : ∃ u, compute x t = some ((s.cells.insert target.ref
      ⟨e.text, e.eval (s.cells.valueOf s.evaluating)⟩).shown s.evaluating x, u) := by
    obtain ⟨u, hu, -⟩ := compute_of_detects (hafter.detectsCycles_eq.trans hon) x
    rw [hafter.evaluating_eq, ← hsources.shown_eq] at hu
    exact ⟨u, hu⟩
  have hget : t.get? target.ref = some ⟨e.text, e.eval (s.cells.valueOf s.evaluating)⟩ := by
    rw [Sheet.get?, hafter.cells_eq, Cells.step, Cells.get?_insert, if_pos rfl]
  refine ⟨_, _, _, target.ref, rfl, rfl, exists_parse_tree hon he, ?_, ?_, fun hidle hself => ?_,
    fun x hx => ⟨?_, fun hnot => ?_⟩⟩
  · rw [Expression.tree_text, Expression.tree_attr]
    exact hget
  · obtain ⟨outcome, u, u', hu, hu', hsame, -, hend⟩ := execute_statement hon hread hafter
    exact ⟨outcome, u, u', hu, hu', hsame, hend⟩
  · -- a way back from the new expression would close a cycle through the target
    have hapart (y : Ref) (hy : y ∈ e.refs) : ¬ s.cells.Leads [] y target.ref := fun hlead => by
      have hdep : t.cells.DependsOn target.ref y := Cells.dependsOn_iff.mpr
        ⟨List.not_mem_nil, (Cells.mem_dependencies_of_formula hget (Cell.formula?_text he _)).mpr hy⟩
      exact hself (.head' hdep (Cells.leads_nil_iff.mp ((hleads y).mpr hlead)))
    obtain ⟨u, hu⟩ := hcompute target.ref
    rw [Cells.shown_insert_self he hidle hapart] at hu
    rw [Expression.tree_text, Expression.tree_attr]
    exact ⟨u, hu⟩
  · rw [Cells.transGen_dependsOn_iff hx, Cells.transGen_dependsOn_iff hx, hleads]
  · rw [Cells.transGen_dependsOn_iff hx, hleads] at hnot
    obtain ⟨u, hu, -⟩ := compute_of_detects hon x
    obtain ⟨u', hu'⟩ := hcompute x
    rw [Cells.shown_insert_of_not_leads hnot] at hu'
    exact ⟨_, u, u', hu, hu'⟩

/-- The sum of both cells, next to them. -/
theorem parse_assignmentHead_fresh_doubled : doubled.detectsCycles = true ∧ ∃ n rest t,
    parse .assignmentHead none (Text.ofString "B1 := A1 + r0c1 !") doubled =
      some (some (n, rest), t) ∧
    (⟨0, 1⟩ : Ref) ∉ doubled.evaluating ∧ ¬ TransGen t.cells.DependsOn ⟨0, 1⟩ ⟨0, 1⟩ ∧
    t.get? ⟨0, 1⟩ = some ⟨Text.ofString "A1+r0c1", .int 9⟩ ∧
    (∃ u, compute ⟨0, 1⟩ t = some (⟨Text.ofString "A1+r0c1", .int 9⟩, u)) ∧
    ¬ TransGen t.cells.DependsOn ⟨0, 0⟩ ⟨0, 1⟩ ∧
    ∃ c u u', compute ⟨0, 0⟩ doubled = some (c, u) ∧ compute ⟨0, 0⟩ t = some (c, u') := by
  let rank (r : Ref) : Nat := if r = ⟨0, 1⟩ then 2 else if r = ⟨0, 0⟩ then 1 else 0
  have hrun : (parse .assignmentHead none (Text.ofString "B1 := A1 + r0c1 !") doubled).map
        (fun p => (p.1.map (·.1.children.map (·.attr.ref)), p.2.get? ⟨0, 1⟩,
          decide (∀ r ∈ p.2.cells.refs, ∀ y ∈ p.2.cells.dependencies r, rank y < rank r))) =
      some (some [some ⟨0, 1⟩, none, none], some ⟨Text.ofString "A1+r0c1", .int 9⟩, true) := by
    decide +kernel
  obtain ⟨⟨result, t⟩, hparse, heq⟩ := Option.map_eq_some_iff.mp hrun
  simp only [Prod.mk.injEq, decide_eq_true_eq] at heq
  obtain ⟨hresult, hstored, hrank⟩ := heq
  obtain ⟨⟨n, rest⟩, rfl, hrefs⟩ := Option.map_eq_some_iff.mp hresult
  obtain ⟨address, mark, expr, target, hchildren, htarget, -, hget, -, hself, hother⟩ :=
    parse_assignmentHead_fresh rfl hparse
  have hb : target = ⟨0, 1⟩ := by
    rw [hchildren, List.map_cons, htarget] at hrefs
    exact Option.some.inj (List.cons.inj hrefs).1
  subst hb
  have hapart : ¬ TransGen t.cells.DependsOn ⟨0, 1⟩ ⟨0, 1⟩ := fun h =>
    absurd (Cells.rank_lt_of_transGen hrank h) (lt_irrefl _)
  have hleft : ¬ TransGen t.cells.DependsOn ⟨0, 0⟩ ⟨0, 1⟩ := fun h =>
    absurd (Cells.rank_lt_of_transGen hrank h) (by decide)
  have hread := hself (by decide) hapart
  rw [← Option.some.inj (hstored.symm.trans hget)] at hread
  exact ⟨rfl, n, rest, t, hparse, by decide, hapart, hstored, hread, hleft,
    (hother ⟨0, 0⟩ (by decide)).2 hleft⟩

end Sheet
end Spreadsheet
