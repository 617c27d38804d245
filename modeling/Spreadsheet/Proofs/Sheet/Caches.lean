import Spreadsheet.Proofs.Sheet.CycleDetection
import Spreadsheet.Proofs.Sheet.Execution

/-! # Cached values

The value kept with a cell is a cache if the text of the cell parses with the cell as context. What
a read gives does not depend on any cache. A read refreshes the caches of the cells that it comes to
through dependencies, each with the value that a read of that cell alone gives, and nothing else.
-/
namespace Spreadsheet

open Formula Grammar Relation

namespace Cells

variable {cells : Cells} {busy : List Ref} {X : Ref → Prop} {r x : Ref} {d : Cell}

/-- With nothing busy a cell leads to what it depends on, however indirectly. -/
theorem leads_nil_iff : cells.Leads [] r x ↔ ReflTransGen cells.DependsOn r x := by
  have hfeeds : (fun a b => cells.Feeds [] b a) = cells.DependsOn := by
    ext a b
    exact dependsOn_iff.symm
  rw [Leads, hfeeds]

theorem reached_nil_iff : cells.Reached [] [r] x ↔ ReflTransGen cells.DependsOn r x := by
  simp [Reached, leads_nil_iff]

theorem get?_refresh_of_mem (hget : cells.get? x = some d) (hx : X x)
    (hformula : (d.formula? x).isSome) :
    (cells.refresh busy X).get? x = some (cells.shown busy x) := by
  rw [get?_refresh, hget, Option.map_some, if_pos ⟨hx, hformula⟩, shown, hget]

theorem get?_refresh_of_not_mem (hget : cells.get? x = some d)
    (hx : ¬ (X x ∧ (d.formula? x).isSome)) : (cells.refresh busy X).get? x = some d := by
  rw [get?_refresh, hget, Option.map_some, if_neg hx]

end Cells

namespace Sheet

variable {s t : Sheet} {r : Ref} {c : Cell}

def ParsesAt (s : Sheet) (r : Ref) (text : Text) : Prop :=
  ∃ m t, parse .expression (some r) text s = some (some m, t)

theorem parsesAt_iff (hon : s.detectsCycles = true) :
    s.ParsesAt r c.expression ↔ (c.formula? r).isSome := by
  obtain ⟨t, hparse⟩ := parse_expression_eq hon r c.expression
  cases hread : Expression.read (some r) c.expression with
  | none => simp [ParsesAt, hparse, Cell.formula?, hread]
  | some p => simp [ParsesAt, hparse, Cell.formula?, hread]

section Agreement

/-- The two sheets detect cycles, have nothing under way and differ in caches, contexts and journals
at most. -/
structure Agrees (s t : Sheet) : Prop where
  detects : s.detectsCycles = true ∧ t.detectsCycles = true
  idle : s.evaluating = [] ∧ t.evaluating = []
  sources : s.cells.SameSources t.cells

theorem agrees_of_expressions (hon : s.detectsCycles = true ∧ t.detectsCycles = true)
    (hidle : s.evaluating = [] ∧ t.evaluating = [])
    (hexpression : ∀ r, (s.get? r).map (·.expression) = (t.get? r).map (·.expression))
    (hvalue : ∀ r c d, s.get? r = some c → t.get? r = some d → ¬ s.ParsesAt r c.expression →
      c.value = d.value) : s.Agrees t := by
  refine ⟨hon, hidle, fun r => ?_⟩
  change (s.get? r).map _ = (t.get? r).map _
  cases hs : s.get? r with
  | none =>
    have ht := (hexpression r).symm
    rw [hs] at ht
    rw [Option.map_eq_none_iff.mp ht]
  | some c =>
    have ht := (hexpression r).symm
    rw [hs] at ht
    obtain ⟨d, hd, hexpr⟩ := Option.map_eq_some_iff.mp ht
    rw [hd, Option.map_some, Option.map_some, Option.some.injEq]
    refine Cell.source_eq_iff.mpr ⟨hexpr.symm, fun hnone => hvalue r c d hs hd ?_⟩
    simp [parsesAt_iff hon.1, hnone]

theorem Agrees.compute (h : s.Agrees t) (r : Ref) :
    ∃ c s' t', Sheet.compute r s = some (c, s') ∧ Sheet.compute r t = some (c, t') ∧
      s'.Agrees t' := by
  obtain ⟨s', hs, hafter⟩ := compute_of_guarded (s := s) (r := r) (.inl ⟨h.detects.1, h.idle.1⟩)
  obtain ⟨t', ht, hafter'⟩ := compute_of_guarded (s := t) (r := r) (.inl ⟨h.detects.2, h.idle.2⟩)
  refine ⟨_, s', t', hs, by rw [ht, h.sources.shown_eq], ?_, ?_, ?_⟩
  · rw [hafter.detectsCycles_eq, hafter'.detectsCycles_eq]
    exact h.detects
  · rw [hafter.evaluating_eq, hafter'.evaluating_eq]
    exact h.idle
  · rw [hafter.cells_eq, hafter'.cells_eq]
    exact (s.cells.sameSources_refresh _ _).symm.trans
      (h.sources.trans (t.cells.sameSources_refresh _ _))

theorem Agrees.mapM_compute (h : s.Agrees t) (rs : List Ref) :
    ∃ cs s' t', rs.mapM Sheet.compute s = some (cs, s') ∧
      rs.mapM Sheet.compute t = some (cs, t') ∧ s'.Agrees t' := by
  induction rs generalizing s t with
  | nil => exact ⟨[], s, t, rfl, rfl, h⟩
  | cons r rs ih =>
    obtain ⟨c, s₁, t₁, hs, ht, h₁⟩ := h.compute r
    obtain ⟨cs, s₂, t₂, hs', ht', h₂⟩ := ih h₁
    exact ⟨c :: cs, s₂, t₂, mapM_cons_of_some hs hs', mapM_cons_of_some ht ht', h₂⟩

/-- Two sheets with the same texts in the same cells, and the same values where the text does not
parse, give the same contents on every read, and on every sequence of reads that each rewrite the
caches. Nothing else that the sheets hold has a say in it. -/
theorem compute_ignores_caches (s t : Sheet) (hs : s.detectsCycles = true)
    (ht : t.detectsCycles = true) (hs' : s.evaluating = []) (ht' : t.evaluating = [])
    (hexpression : ∀ r, (s.get? r).map (·.expression) = (t.get? r).map (·.expression))
    (hvalue : ∀ r c d, s.get? r = some c → t.get? r = some d → ¬ s.ParsesAt r c.expression →
      c.value = d.value) :
    (∀ r, ∃ c s' t', compute r s = some (c, s') ∧ compute r t = some (c, t')) ∧
    ∀ rs : List Ref, ∃ cs s' t', rs.mapM compute s = some (cs, s') ∧
      rs.mapM compute t = some (cs, t') := by
  have hagrees := agrees_of_expressions ⟨hs, ht⟩ ⟨hs', ht'⟩ hexpression hvalue
  constructor
  · intro r
    obtain ⟨c, s₁, t₁, hcs, hct, -⟩ := hagrees.compute r
    exact ⟨c, s₁, t₁, hcs, hct⟩
  · intro rs
    obtain ⟨cs, s₁, t₁, hcs, hct, -⟩ := hagrees.mapM_compute rs
    exact ⟨cs, s₁, t₁, hcs, hct⟩

/-- A cycle of two cells, the first of which also refers to a third. Next to them a cell with a text
that does not parse, and one that refers to it. The caches are as given. -/
def tangled (cache : Ref → Value) : Sheet where
  cells := ((((Cells.empty.insert ⟨0, 0⟩ ⟨Text.ofString "B1+C1", cache ⟨0, 0⟩⟩).insert ⟨0, 1⟩
    ⟨Text.ofString "A1*2", cache ⟨0, 1⟩⟩).insert ⟨0, 2⟩ ⟨Text.ofString "4", cache ⟨0, 2⟩⟩).insert
    ⟨0, 3⟩ ⟨Text.ofString "?", .int 3⟩).insert ⟨0, 4⟩ ⟨Text.ofString "C1+D1", cache ⟨0, 4⟩⟩
  detectsCycles := true

theorem get?_tangled (cache : Ref → Value) (r : Ref) : (tangled cache).get? r =
    if r = ⟨0, 4⟩ then some ⟨Text.ofString "C1+D1", cache ⟨0, 4⟩⟩
    else if r = ⟨0, 3⟩ then some ⟨Text.ofString "?", .int 3⟩
    else if r = ⟨0, 2⟩ then some ⟨Text.ofString "4", cache ⟨0, 2⟩⟩
    else if r = ⟨0, 1⟩ then some ⟨Text.ofString "A1*2", cache ⟨0, 1⟩⟩
    else if r = ⟨0, 0⟩ then some ⟨Text.ofString "B1+C1", cache ⟨0, 0⟩⟩
    else none := by
  simp only [tangled, Sheet.get?, Cells.get?_insert]
  rfl

theorem compute_ignores_caches_tangled :
    ∃ cs s' t', List.mapM compute [⟨0, 0⟩, ⟨0, 4⟩] (tangled fun _ => .int 9) = some (cs, s') ∧
      List.mapM compute [⟨0, 0⟩, ⟨0, 4⟩]
        { tangled (fun r => .int r.col) with context := some ⟨5, 5⟩ } = some (cs, t') ∧
      cs = [⟨Text.ofString "B1+C1", .empty⟩, ⟨Text.ofString "C1+D1", .int 7⟩] := by
  have hexpression : ∀ r, ((tangled fun _ => .int 9).get? r).map (·.expression) =
      ((tangled fun r => .int r.col).get? r).map (·.expression) := by
    intro r
    rw [get?_tangled, get?_tangled]
    split_ifs <;> rfl
  have hvalue : ∀ r c d, (tangled fun _ => .int 9).get? r = some c →
      (tangled fun r => .int r.col).get? r = some d →
      ¬ (tangled fun _ => .int 9).ParsesAt r c.expression → c.value = d.value := by
    intro r c d hc hd hnot
    rw [parsesAt_iff rfl] at hnot
    rw [get?_tangled] at hc hd
    split_ifs at hc hd with h h h h h
    all_goals subst h; cases hc; cases hd
    · exact absurd (by decide +kernel) hnot
    · rfl
    · exact absurd (by decide +kernel) hnot
    · exact absurd (by decide +kernel) hnot
    · exact absurd (by decide +kernel) hnot
  obtain ⟨cs, s', t', hs, ht⟩ := (compute_ignores_caches (tangled fun _ => .int 9)
    { tangled (fun r => .int r.col) with context := some ⟨5, 5⟩ } rfl rfl rfl rfl
    hexpression hvalue).2 [⟨0, 0⟩, ⟨0, 4⟩]
  have hcs : (List.mapM compute [⟨0, 0⟩, ⟨0, 4⟩] (tangled fun _ => .int 9)).map (·.1) =
      some [⟨Text.ofString "B1+C1", .empty⟩, ⟨Text.ofString "C1+D1", .int 7⟩] := by
    decide +kernel
  rw [hs] at hcs
  exact ⟨cs, s', t', hs, ht, Option.some.inj hcs⟩

end Agreement

section Writes

/-- A read writes no text, prints nothing, and goes back to the context it started in. Each stored
cell that it comes to through dependencies, and whose text parses there, then holds what a read of
that cell alone gives, before and after. Every other cell holds what it held. -/
theorem compute_writes_caches (s : Sheet) (hon : s.detectsCycles = true) (hidle : s.evaluating = [])
    (r : Ref) :
    ∃ c t, compute r s = some (c, t) ∧
      (∀ x, (t.get? x).map (·.expression) = (s.get? x).map (·.expression)) ∧
      t.journal.filter Event.isPrinted = s.journal.filter Event.isPrinted ∧
      t.context = s.context ∧ t.evaluating = s.evaluating ∧
      ∀ x d, s.get? x = some d →
        (ReflTransGen s.cells.DependsOn r x → s.ParsesAt x d.expression →
          ∃ d' u u', compute x s = some (d', u) ∧ compute x t = some (d', u') ∧
            t.get? x = some d') ∧
        (¬ (ReflTransGen s.cells.DependsOn r x ∧ s.ParsesAt x d.expression) →
          t.get? x = some d) := by
  have hguard (x : Ref) : s.Guarded [] x := .inl ⟨hon, hidle⟩
  obtain ⟨t, hrun, hafter⟩ := compute_of_guarded (hguard r)
  have hsources := s.cells.sameSources_refresh [] (s.cells.Reached [] [r])
  have hget (x : Ref) : t.get? x = (s.cells.refresh [] (s.cells.Reached [] [r])).get? x := by
    rw [Sheet.get?, hafter.cells_eq]
  refine ⟨_, t, hrun, fun x => ?_, hafter.filter_journal, hafter.context_eq, hafter.evaluating_eq,
    fun x d hd => ⟨fun hdepends hparses => ?_, fun hnot => ?_⟩⟩
  · rw [hget]
    exact (hsources.expression_eq x).symm
  · obtain ⟨u, hu, -⟩ := compute_of_guarded (hguard x)
    obtain ⟨u', hu', -⟩ := compute_of_guarded ((hguard x).after hafter hsources)
    rw [hafter.cells_eq, ← hsources.shown_eq] at hu'
    refine ⟨_, u, u', hu, hu', ?_⟩
    rw [hget]
    have hformula := (parsesAt_iff hon).mp hparses
    exact Cells.get?_refresh_of_mem hd (Cells.reached_nil_iff.mpr hdepends) hformula
  · rw [hget]
    refine Cells.get?_refresh_of_not_mem hd ?_
    rw [Cells.reached_nil_iff, ← parsesAt_iff hon]
    exact hnot

/-- Reading a cell of the cycle settles the other; reading a number alone leaves the cycle as it
was. -/
theorem compute_writes_caches_tangled :
    (∃ c t, compute ⟨0, 0⟩ (tangled fun _ => .int 9) = some (c, t) ∧
      t.get? ⟨0, 1⟩ = some ⟨Text.ofString "A1*2", .empty⟩ ∧
      t.get? ⟨0, 3⟩ = some ⟨Text.ofString "?", .int 3⟩) ∧
    ∃ c t, compute ⟨0, 2⟩ (tangled fun _ => .int 9) = some (c, t) ∧
      t.get? ⟨0, 2⟩ = some ⟨Text.ofString "4", .int 4⟩ ∧
      t.get? ⟨0, 1⟩ = some ⟨Text.ofString "A1*2", .int 9⟩ := by
  have hnumber : (tangled fun _ => .int 9).get? ⟨0, 2⟩ = some ⟨Text.ofString "4", .int 9⟩ := by
    decide +kernel
  have hsecond : (tangled fun _ => .int 9).get? ⟨0, 1⟩ = some ⟨Text.ofString "A1*2", .int 9⟩ := by
    decide +kernel
  constructor
  · obtain ⟨c, t, hrun, -, -, -, -, hcells⟩ :=
      compute_writes_caches (tangled fun _ => .int 9) rfl rfl ⟨0, 0⟩
    refine ⟨c, t, hrun, ?_, (hcells ⟨0, 3⟩ ⟨Text.ofString "?", .int 3⟩ (by decide +kernel)).2 ?_⟩
    · have hdepends : (tangled fun _ => .int 9).cells.DependsOn ⟨0, 0⟩ ⟨0, 1⟩ :=
        ⟨⟨Text.ofString "B1+C1", .int 9⟩, .empty, [⟨0, 1⟩, ⟨0, 2⟩], by decide +kernel,
          by decide +kernel, by decide⟩
      obtain ⟨d, u, -, hu, -, hd⟩ := (hcells _ _ hsecond).1 (.single hdepends)
        ((parsesAt_iff rfl).mpr (by decide +kernel))
      have hvalue : (compute ⟨0, 1⟩ (tangled fun _ => .int 9)).map (·.1) =
          some ⟨Text.ofString "A1*2", .empty⟩ := by decide +kernel
      rw [hu] at hvalue
      rw [hd]
      exact hvalue
    · rw [parsesAt_iff rfl]
      exact fun h => absurd h.2 (by decide +kernel)
  · obtain ⟨c, t, hrun, -, -, -, -, hcells⟩ :=
      compute_writes_caches (tangled fun _ => .int 9) rfl rfl ⟨0, 2⟩
    refine ⟨c, t, hrun, ?_, (hcells _ _ hsecond).2 ?_⟩
    · obtain ⟨d, u, -, hu, -, hd⟩ := (hcells _ _ hnumber).1 .refl
        ((parsesAt_iff rfl).mpr (by decide +kernel))
      have hvalue : (compute ⟨0, 2⟩ (tangled fun _ => .int 9)).map (·.1) =
          some ⟨Text.ofString "4", .int 4⟩ := by decide +kernel
      rw [hu] at hvalue
      rw [hd]
      exact hvalue
    · rintro ⟨hreach, -⟩
      rcases hreach.cases_head with heq | ⟨y, ⟨e, v, refs, he, hread, hy⟩, -⟩
      · cases heq
      · cases hnumber.symm.trans he
        have hnone : interpret (fun _ => .empty) ⟨0, 2⟩ (Text.ofString "4") =
            some (.int 4, []) := by decide +kernel
        cases hnone.symm.trans hread
        cases hy

end Writes

end Sheet
end Spreadsheet
