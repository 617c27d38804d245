import Spreadsheet.Sheet.Evaluation
import Spreadsheet.Proofs.Formula.Matching
import Spreadsheet.Proofs.Sheet.Refresh

/-! # Computing a cell

A computation gives the value of the cell while the cells under evaluation count as empty, refreshes
the caches of what the cell leads to, and otherwise only adds to the log. With cycle detection it
always ends; without, it ends for a cell that does not lead back to itself.
-/
namespace Spreadsheet

open Formula

/-- Whether an entry tells of a stored text that could not be read again. -/
def Log.Entry.isStale (e : Log.Entry) : Bool :=
  e.level = .warning && (Text.ofString "cannot re-parse expression ").isPrefixOf e.message

def Event.isPrinted : Event → Bool
  | .logged _ => false
  | .printed _ _ => true

/-- Whether a stored text cannot be read with its cell as context. -/
def Cells.HasUnreadable (cells : Cells) : Prop :=
  ∃ r c, cells.get? r = some c ∧ c.formula? r = none

theorem Cells.SameSources.hasUnreadable {s t : Cells} (h : s.SameSources t)
    (hs : s.HasUnreadable) : t.HasUnreadable := by
  obtain ⟨r, c, hget, hformula⟩ := hs
  obtain ⟨d, hd, -, hd', -⟩ := h.exists_get? hget
  exact ⟨r, d, hd, hd'.trans hformula⟩

namespace Sheet

/-- The sheet `t` is `s` with the given cells and with more in the journal, of which the given
events, newest first, are reports. No entry of the log tells of a text that could not be read,
unless there is such a text. -/
structure After (s : Sheet) (cells : Cells) (reports : List Event) (t : Sheet) : Prop where
  frame : t = { s with cells := cells, journal := t.journal }
  journal : ∃ events, t.journal = events ++ s.journal ∧ events.filter Event.isPrinted = reports ∧
    ∀ e, Event.logged e ∈ events → e.isStale → s.cells.HasUnreadable

namespace After

variable {s t u : Sheet} {cells cells' : Cells} {reports reports' : List Event}

theorem refl (s : Sheet) : s.After s.cells [] s := ⟨rfl, [], rfl, rfl, by simp⟩

theorem cells_eq (h : s.After cells reports t) : t.cells = cells := by rw [h.frame]

theorem context_eq (h : s.After cells reports t) : t.context = s.context := by rw [h.frame]

theorem evaluating_eq (h : s.After cells reports t) : t.evaluating = s.evaluating := by
  rw [h.frame]

theorem detectsCycles_eq (h : s.After cells reports t) : t.detectsCycles = s.detectsCycles := by
  rw [h.frame]

theorem filter_journal (h : s.After cells reports t) :
    t.journal.filter Event.isPrinted = reports ++ s.journal.filter Event.isPrinted := by
  obtain ⟨events, hevents, hreports, -⟩ := h.journal
  rw [hevents, List.filter_append, hreports]

theorem trans (h : s.After cells reports t)
    (hunreadable : cells.HasUnreadable → s.cells.HasUnreadable) (h' : t.After cells' reports' u) :
    s.After cells' (reports' ++ reports) u := by
  obtain ⟨xs, hxs, hreports, hstale⟩ := h.journal
  obtain ⟨ys, hys, hreports', hstale'⟩ := h'.journal
  refine ⟨?_, ys ++ xs, by rw [hys, hxs, List.append_assoc], ?_, fun e he hse => ?_⟩
  · rw [h'.frame, h.frame]
  · rw [List.filter_append, hreports, hreports']
  · rcases List.mem_append.mp he with he | he
    · exact hunreadable (h.cells_eq ▸ hstale' e he hse)
    · exact hstale e he hse

theorem note (h : s.After cells reports t) (level : Log.Level) (message : Text)
    (hnote : (Log.Entry.mk level "sheetlang.calc" message).isStale → s.cells.HasUnreadable) :
    s.After cells reports (t.note level message) := by
  obtain ⟨xs, hxs, hreports, hstale⟩ := h.journal
  refine ⟨?_, .logged ⟨level, "sheetlang.calc", message⟩ :: xs, by simp [Sheet.note, hxs], ?_, ?_⟩
  · rw [Sheet.note, h.frame]
  · rw [← hreports]
    rfl
  · intro e he
    rcases List.mem_cons.mp he with heq | he
    · cases heq
      exact hnote
    · exact hstale e he

theorem debug (h : s.After cells reports t) (message : Text) :
    s.After cells reports (t.note .debug message) :=
  h.note .debug message (by simp [Log.Entry.isStale])

end After

/-- A cell that can be computed without coming to a busy cell or back to itself. -/
def Free (cells : Cells) (busy : List Ref) (r : Ref) : Prop :=
  Acc (cells.Feeds []) r ∧ ∀ b ∈ busy, ¬ cells.Leads [] r b

/-- The busy cells are known to the sheet, or the computation never comes to them. -/
def Guarded (s : Sheet) (busy : List Ref) (r : Ref) : Prop :=
  (s.detectsCycles = true ∧ s.evaluating = busy) ∨ (s.detectsCycles = false ∧ Free s.cells busy r)

section Guarded

variable {s t : Sheet} {cells : Cells} {busy : List Ref} {r x : Ref}

theorem Free.of_feeds (h : Free cells busy r) (hx : cells.Feeds [] x r) :
    Free cells (r :: busy) x := by
  refine ⟨h.1.inv hx, fun b hb hlead => ?_⟩
  rcases List.mem_cons.mp hb with rfl | hb
  · have hcycle : Relation.TransGen (cells.Feeds []) x x := (Relation.TransGen.tail' hlead hx).swap
    exact Cells.not_acc_of_cycle hcycle (h.1.inv hx)
  · exact h.2 b hb (.head hx hlead)

theorem Free.of_sameSources (h : Free cells busy r) (hsources : cells.SameSources t.cells) :
    Free t.cells busy r := by
  refine ⟨hsources.feeds_eq [] ▸ h.1, fun b hb hlead => h.2 b hb (hsources.leads_iff.mpr hlead)⟩

/-- The sheet takes a stored cell as under way exactly if it is busy. -/
theorem Guarded.isBeingEvaluated_iff (h : s.Guarded busy r) :
    s.isBeingEvaluated r = true ↔ r ∈ busy := by
  rcases h with ⟨hon, rfl⟩ | ⟨hoff, -, hfree⟩
  · simp [isBeingEvaluated, hon]
  · have hr : r ∉ busy := fun hmem => hfree r hmem .refl
    simp [isBeingEvaluated, hoff, hr]

theorem Guarded.beginCell (h : s.Guarded busy r) (hx : x ∈ s.cells.dependencies r) :
    (s.beginCell r).Guarded (r :: busy) x := by
  rcases h with ⟨hon, rfl⟩ | ⟨hoff, hfree⟩
  · exact .inl ⟨hon, by simp [Sheet.beginCell, hon]⟩
  · exact .inr ⟨hoff, hfree.of_feeds ⟨List.not_mem_nil, hx⟩⟩

theorem Guarded.after {reports : List Event} (h : s.Guarded busy r) (hafter : s.After cells reports t)
    (hsources : s.cells.SameSources cells) : t.Guarded busy r := by
  rcases h with ⟨hon, rfl⟩ | ⟨hoff, hfree⟩
  · exact .inl ⟨hafter.detectsCycles_eq ▸ hon, hafter.evaluating_eq⟩
  · exact .inr ⟨hafter.detectsCycles_eq ▸ hoff,
      hfree.of_sameSources (hafter.cells_eq ▸ hsources)⟩

end Guarded

section Passage

variable {s : Sheet} {busy : List Ref} {r : Ref} {depth : Nat}

def ComputesWithin (depth : Nat) (busy : List Ref) (r : Ref) (s : Sheet) : Prop :=
  ∃ t, computeWithin depth r s = some (s.cells.shown busy r, t) ∧
    s.After (s.cells.refresh busy (s.cells.Reached busy [r])) [] t

/-- An expression is read over cells that can each be computed: after some of them, the caches of
what these lead to are refreshed. -/
theorem passage_of_computesWithin (base : Sheet) (effects : Effects)
    (hcompute : effects.compute = computeWithin depth)
    (hstep : ∀ x t, t.Guarded busy x → t.cells.pending busy ≤ depth → ComputesWithin depth busy x t)
    (hpending : base.cells.pending busy ≤ depth) :
    Passage effects base.context (base.cells.shown busy) (base.Guarded busy)
      fun xs t => base.After (base.cells.refresh busy (base.cells.Reached busy xs)) [] t where
  context_eq h := h.context_eq
  note message h := h.debug message
  compute := by
    intro xs x hx t ht
    have hsources := base.cells.sameSources_refresh busy (base.cells.Reached busy xs)
    have hpending' : t.cells.pending busy ≤ depth := by
      rw [ht.cells_eq, Cells.pending, Cells.refs_refresh]
      exact hpending
    obtain ⟨u, hrun, hu⟩ := hstep x t (hx.after ht hsources) hpending'
    rw [ht.cells_eq] at hrun hu
    rw [Cells.refresh_reached_append] at hu
    exact ⟨u, by rw [hcompute, hrun, hsources.shown_eq], ht.trans hsources.symm.hasUnreadable hu⟩

end Passage

section Compute

variable {s t inner : Sheet} {cells : Cells} {busy : List Ref} {r : Ref} {c : Cell} {depth : Nat}

theorem After.endCell {reports : List Event} (h : (s.beginCell r).After cells reports inner) :
    s.After cells reports (s.endCell inner) := by
  refine ⟨?_, h.journal⟩
  rw [Sheet.endCell, h.frame]
  rfl

theorem After.put {reports : List Event} (h : s.After cells reports t) :
    s.After (cells.insert r c) reports (t.put r c) :=
  ⟨by rw [Sheet.put, h.frame], h.journal⟩

/-- A bound on how deep parsing has to go. -/
theorem le_depth (fx : Effects) (input : Text) : 13 + input.length ≤ (grammar fx).depth input := by
  change 13 + input.length ≤ (input.length + 1) * 31
  omega

theorem not_isStale_cycle (r : Ref) : ¬ (Log.Entry.mk .warning "sheetlang.calc"
    (Text.ofString "cycle through cell " ++ r.label)).isStale := by
  -- the two messages differ in their second letter
  have h : (Log.Entry.mk .warning "sheetlang.calc"
    (Text.ofString "cycle through cell " ++ r.label)).isStale = false := rfl
  simp [h]

theorem computesWithin_unstored (hget : s.get? r = none) : ComputesWithin depth busy r s := by
  have hrefresh : s.cells.refresh busy (s.cells.Reached busy [r]) = s.cells :=
    Cells.refresh_reached_of_not_feeds
      (fun y hy => by
        obtain ⟨c, e, hc, -, -⟩ := Cells.exists_formula_of_mem_dependencies hy.2
        rw [show s.cells.get? r = none from hget] at hc
        cases hc)
      (fun c hc _ => by rw [show s.cells.get? r = none from hget] at hc; cases hc)
  refine ⟨s, ?_, by rw [hrefresh]; exact After.refl s⟩
  unfold computeWithin
  simp only [hget, Cells.shown, show s.cells.get? r = none from hget]

theorem computesWithin_busy (hguard : s.Guarded busy r) (hget : s.get? r = some c) (hr : r ∈ busy) :
    ComputesWithin depth busy r s := by
  have hrefresh : s.cells.refresh busy (s.cells.Reached busy [r]) = s.cells :=
    Cells.refresh_reached_of_not_feeds (fun y hy => hy.1 hr) (fun _ _ hnot => absurd hr hnot)
  refine ⟨(s.cutCycle r c).2, ?_, ?_⟩
  · unfold computeWithin
    simp only [hget, hguard.isBeingEvaluated_iff.mpr hr, if_true, cutCycle, Cells.shown,
      show s.cells.get? r = some c from hget, Cells.valueOf_busy hr]
  · rw [hrefresh]
    exact (After.refl s).note .warning _ fun hstale => absurd hstale (not_isStale_cycle r)

def within (depth : Nat) : Effects := { Effects.inert with compute := computeWithin depth }

def staleNote (s : Sheet) (r : Ref) (c : Cell) : Sheet :=
  s.note .warning (Text.ofString "cannot re-parse expression " ++ Quoted.quote c.expression ++
    Text.ofString " of cell " ++ r.label)

theorem computeWithin_unreadable (hget : s.get? r = some c) (hidle : s.isBeingEvaluated r = false)
    (hrun : (grammar (within depth)).parse .expression c.expression (s.beginCell r) =
      some (none, inner)) :
    computeWithin (depth + 1) r s = some (c, (s.endCell inner).staleNote r c) := by
  unfold within at hrun
  unfold computeWithin
  simp only [hget, hidle, Bool.false_eq_true, if_false, hrun]
  rfl

theorem computeWithin_formula {n : Tree} {rest : Text} (hget : s.get? r = some c)
    (hidle : s.isBeingEvaluated r = false)
    (hrun : (grammar (within depth)).parse .expression c.expression (s.beginCell r) =
      some (some (n, rest), inner)) :
    computeWithin (depth + 1) r s = some ({ c with value := n.attr.value },
      (s.endCell inner).put r { c with value := n.attr.value }) := by
  unfold within at hrun
  unfold computeWithin
  simp only [hget, hidle, Bool.false_eq_true, if_false, hrun]

theorem computesWithin_succ (hguard : s.Guarded busy r) (hget : s.get? r = some c) (hr : r ∉ busy)
    (hpending : s.cells.pending (r :: busy) ≤ depth)
    (hstep : ∀ x t, t.Guarded (r :: busy) x → t.cells.pending (r :: busy) ≤ depth →
      ComputesWithin depth (r :: busy) x t) :
    ComputesWithin (depth + 1) busy r s := by
  have hget' : s.cells.get? r = some c := hget
  have hidle : s.isBeingEvaluated r = false := by
    simpa using mt hguard.isBeingEvaluated_iff.mp hr
  have hpassage := passage_of_computesWithin (s.beginCell r) (within depth) rfl hstep hpending
  have hstart : (s.beginCell r).After
      (s.cells.refresh (r :: busy) (s.cells.Reached (r :: busy) [])) [] (s.beginCell r) := by
    rw [Cells.refresh_reached_nil]
    exact After.refl _
  have hfuel : 7 + c.expression.length ≤ (grammar (within depth)).depth c.expression :=
    (Nat.add_le_add_right (by decide) _).trans (le_depth (within depth) c.expression)
  cases hformula : c.formula? r with
  | none =>
    have hread := Option.map_eq_none_iff.mp hformula
    obtain ⟨inner, hrun, hinner⟩ :=
      hpassage.matches_expression.failure hfuel hread (s.beginCell r) hstart
    have hunreadable : s.cells.HasUnreadable := ⟨r, c, hget', hformula⟩
    have hfeeds (y : Ref) : ¬ s.cells.Feeds busy y r := by
      rintro ⟨-, hy⟩
      simp [Cells.dependencies, Cells.formula?, hget', hformula] at hy
    have hsame (d : Cell) (hd : s.cells.get? r = some d) (_ : r ∉ busy) : d.formula? r = none := by
      cases hget'.symm.trans hd
      exact hformula
    refine ⟨(s.endCell inner).staleNote r c, ?_, ?_⟩
    · rw [computeWithin_unreadable hget hidle hrun, Cells.shown, hget',
        Cells.valueOf_unreadable hget' hr hformula]
    · rw [Cells.refresh_reached_of_not_feeds hfeeds hsame]
      rw [Cells.refresh_reached_nil] at hinner
      exact hinner.endCell.note .warning _ fun _ => hunreadable
  | some e =>
    obtain ⟨⟨e', rest⟩, hread, rfl⟩ := Option.map_eq_some_iff.mp hformula
    have hmay : ∀ x ∈ e'.refs, (s.beginCell r).Guarded (r :: busy) x := fun x hx =>
      hguard.beginCell ((Cells.mem_dependencies_of_formula hget' hformula).mpr hx)
    obtain ⟨inner, hrun, hinner⟩ :=
      hpassage.matches_expression.success hfuel hread hmay (s.beginCell r) hstart
    have hvalue : (e'.tree fun x => ((s.beginCell r).cells.shown (r :: busy) x).value).attr.value =
        s.cells.valueOf busy r := by
      rw [Expression.tree_attr, Cells.valueOf_formula hget' hr hformula]
      exact Expression.eval_congr fun x _ => Cells.shown_value _ _ x
    have hcompute := computeWithin_formula hget hidle hrun
    rw [hvalue] at hcompute
    refine ⟨_, by rw [hcompute, Cells.shown, hget'], ?_⟩
    rw [← Cells.insert_refresh hget' hr hformula]
    exact hinner.endCell.put

/-- Enough depth for the stored cells that are not busy is enough to compute any cell. -/
theorem computesWithin_of_guarded (hguard : s.Guarded busy r)
    (hpending : s.cells.pending busy ≤ depth) :
    ComputesWithin depth busy r s := by
  induction depth generalizing busy r s with
  | zero =>
    cases hget : s.get? r with
    | none => exact computesWithin_unstored hget
    | some c =>
      refine computesWithin_busy hguard hget (by_contra fun hr => ?_)
      have hlt := Cells.pending_cons_lt hget hr
      omega
  | succ depth ih =>
    cases hget : s.get? r with
    | none => exact computesWithin_unstored hget
    | some c =>
      by_cases hr : r ∈ busy
      · exact computesWithin_busy hguard hget hr
      · have hlt := Cells.pending_cons_lt hget hr
        exact computesWithin_succ hguard hget hr (by omega) fun x t hx hdepth => ih hx hdepth

/-- Computing a cell shows its value and refreshes all that it leads to. -/
theorem compute_of_guarded (hguard : s.Guarded busy r) :
    ∃ t, compute r s = some (s.cells.shown busy r, t) ∧
      s.After (s.cells.refresh busy (s.cells.Reached busy [r])) [] t :=
  computesWithin_of_guarded hguard (s.cells.pending_le_size busy)

/-- With cycle detection every cell can be computed, whatever is under evaluation. -/
theorem compute_of_detects (hon : s.detectsCycles = true) (r : Ref) :
    ∃ t, compute r s = some (s.cells.shown s.evaluating r, t) ∧
      s.After (s.cells.refresh s.evaluating (s.cells.Reached s.evaluating [r])) [] t :=
  compute_of_guarded (.inl ⟨hon, rfl⟩)

end Compute

end Sheet
end Spreadsheet
