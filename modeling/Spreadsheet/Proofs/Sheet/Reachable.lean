import Spreadsheet.Sheet.Listing
import Spreadsheet.Proofs.Sheet.Execution

/-! # Reachable sheets

In a sheet that programs have made, every stored text is that of an expression which is valid with
its own cell as context. So it reads as that expression whenever the cell is computed, whatever
other cells hold by then. Texts among the values stand in quotes.
-/
namespace Spreadsheet

open Formula Grammar

/-- A text value stands in quotes, is not empty and has no quotes inside. -/
def Value.IsQuoted (v : Value) : Prop :=
  ∀ t, v = .str t → ∃ body, IsRun (· != Text.byte '"') body ∧ t = quote body

section Values

variable {α : Type} {op : Value → Value → Value}

theorem Formula.Chain.isQuoted_combine (hop : ∀ v w t, op v w ≠ .str t) {c : Chain Value}
    (hc : ∀ v ∈ c.toList, v.IsQuoted) : (c.combine op).IsQuoted := by
  obtain ⟨v, vs⟩ := c
  cases vs with
  | nil => exact hc v (by simp [Chain.toList])
  | cons w ws => exact fun t ht => absurd ht (hop _ _ t)

theorem Value.add_ne_str (v w : Value) (t : Text) : v.add w ≠ .str t := by
  cases v <;> cases w <;> simp [Value.add]

theorem Value.mul_ne_str (v w : Value) (t : Text) : v.mul w ≠ .str t := by
  cases v <;> cases w <;> simp [Value.mul]

/-- A text is the value of a quoted expression, or of a single reference. -/
theorem Formula.Expression.isQuoted_eval {context : Option Ref} {env : Ref → Value}
    {e : Expression Factor} (he : e.Valid context) (henv : ∀ r, (env r).IsQuoted) :
    (e.eval env).IsQuoted := by
  have hfactor (f : Factor) : (f.value env).IsQuoted := by
    cases f with
    | absolute a => exact henv a.ref
    | relative rows cols r => exact henv r
    | integer n => intro t ht; cases ht
  cases e with
  | quoted body =>
    intro t ht
    cases ht
    exact ⟨body, he, rfl⟩
  | sum terms =>
    refine Chain.isQuoted_combine Value.add_ne_str fun v hv => ?_
    rw [Chain.toList_map, Chain.toList_map, List.map_map] at hv
    obtain ⟨c, -, rfl⟩ := List.mem_map.mp hv
    refine Chain.isQuoted_combine Value.mul_ne_str fun v hv => ?_
    rw [Chain.toList_map] at hv
    obtain ⟨f, -, rfl⟩ := List.mem_map.mp hv
    exact hfactor f

end Values

namespace Cells

/-- Every stored text is that of an expression which is valid in its cell, and every stored value is
quoted if it is a text. -/
structure Sound (cells : Cells) : Prop where
  readable : ∀ r c, cells.get? r = some c →
    ∃ e : Expression Factor, e.Valid (some r) ∧ c.expression = e.text
  quoted : ∀ r c, cells.get? r = some c → c.value.IsQuoted

variable {cells : Cells} {busy : List Ref}

theorem sound_empty : Sound .empty := by
  have hget (r : Ref) : Cells.empty.get? r = none := rfl
  constructor <;> intro r c hc <;> simp [hget] at hc

theorem Sound.isQuoted_valueOf (h : cells.Sound) (busy : List Ref) (r : Ref) :
    (cells.valueOf busy r).IsQuoted := by
  induction busy, r using computation_induction cells with
  | unstored busy r hget =>
    rw [valueOf_unstored hget]
    intro t ht
    cases ht
  | cut busy r c hget hr =>
    rw [valueOf_busy hr]
    intro t ht
    cases ht
  | unreadable busy r c hget hr hformula =>
    rw [valueOf_unreadable hget hr hformula]
    exact h.quoted r c hget
  | formula busy r c e hget hr hformula ih =>
    rw [valueOf_formula hget hr hformula]
    obtain ⟨⟨e', rest⟩, hread, rfl⟩ := Option.map_eq_some_iff.mp hformula
    exact Expression.isQuoted_eval (Expression.valid_of_read hread) ih

theorem Sound.refresh (h : cells.Sound) (busy : List Ref) (X : Ref → Prop) :
    (cells.refresh busy X).Sound := by
  classical
  constructor
  · intro r c hc
    rw [get?_refresh] at hc
    obtain ⟨d, hd, rfl⟩ := Option.map_eq_some_iff.mp hc
    obtain ⟨e, he, htext⟩ := h.readable r d hd
    exact ⟨e, he, by split <;> exact htext⟩
  · intro r c hc
    rw [get?_refresh] at hc
    obtain ⟨d, hd, rfl⟩ := Option.map_eq_some_iff.mp hc
    split
    · exact h.isQuoted_valueOf busy r
    · exact h.quoted r d hd

theorem Sound.step {context : Option Ref} {st : Statement} (h : cells.Sound)
    (hst : st.Valid context) : (cells.step busy st).Sound := by
  cases st with
  | print kind e => exact h.refresh busy _
  | assign target e =>
    have hcomputed : (cells.computed busy e).Sound := h.refresh busy _
    have hvalue : (e.eval (cells.valueOf busy)).IsQuoted :=
      Expression.isQuoted_eval hst.2 (h.isQuoted_valueOf busy)
    constructor
    · intro r c hc
      rw [Cells.step, get?_insert] at hc
      by_cases hr : r = target.ref
      · rw [if_pos hr] at hc
        cases hc
        exact ⟨e, hr ▸ hst.2, rfl⟩
      · rw [if_neg hr] at hc
        exact hcomputed.readable r c hc
    · intro r c hc
      rw [Cells.step, get?_insert] at hc
      by_cases hr : r = target.ref
      · rw [if_pos hr] at hc
        cases hc
        exact hvalue
      · rw [if_neg hr] at hc
        exact hcomputed.quoted r c hc

theorem Sound.run {context : Option Ref} {sts : List Statement} (h : cells.Sound)
    (hsts : ∀ st ∈ sts, st.Valid context) : (Cells.run busy sts cells).Sound := by
  induction sts generalizing cells with
  | nil => exact h
  | cons st sts ih =>
    exact ih (h.step (hsts st List.mem_cons_self)) fun x hx => hsts x (List.mem_cons_of_mem st hx)

theorem Sound.not_hasUnreadable (h : cells.Sound) : ¬ cells.HasUnreadable := by
  rintro ⟨r, c, hget, hformula⟩
  obtain ⟨e, he, htext⟩ := h.readable r c hget
  rw [Cell.formula?, htext, Expression.read_text he] at hformula
  cases hformula

/-- What is kept when caches are refreshed and when an assignment is stored is kept by every
program. -/
theorem run_keeps {P : Cells → Prop} {context : Option Ref} {sts : List Statement}
    (refresh : ∀ cells busy X, P cells → P (cells.refresh busy X))
    (insert : ∀ (cells : Cells) (target : Address) (e : Expression Factor) (v : Value),
      target.Valid → e.Valid (some target.ref) → P cells → P (cells.insert target.ref ⟨e.text, v⟩))
    (hsts : ∀ st ∈ sts, st.Valid context) (h : P cells) : P (Cells.run busy sts cells) := by
  induction sts generalizing cells with
  | nil => exact h
  | cons st sts ih =>
    refine ih (fun x hx => hsts x (List.mem_cons_of_mem st hx)) ?_
    have hst := hsts st List.mem_cons_self
    cases st with
    | assign target e => exact insert _ _ _ _ hst.1 hst.2 (refresh _ _ _ h)
    | print kind e => exact refresh _ _ _ h

end Cells

namespace Sheet

/-- The sheets that programs, reads, listings and clearing make of a new one. -/
inductive Reachable : Sheet → Prop
  | new : Reachable { detectsCycles := true }
  | execute {s t : Sheet} {src : Text} {outcome : Outcome} (h : Reachable s)
      (hrun : execute src s = some (outcome, t)) : Reachable t
  | compute {s t : Sheet} {r : Ref} {c : Cell} (h : Reachable s)
      (hrun : compute r s = some (c, t)) : Reachable t
  | list {s t : Sheet} {out : Output} {result : Option Ref × Output} (h : Reachable s)
      (hrun : list out s = some (result, t)) : Reachable t
  | clear {s : Sheet} (h : Reachable s) : Reachable s.clear

structure Settled (s : Sheet) : Prop where
  detects : s.detectsCycles = true
  context : s.context = none
  idle : s.evaluating = []
  sound : s.cells.Sound
  fresh : ∀ e, Event.logged e ∈ s.journal → ¬ e.isStale

variable {s t : Sheet} {cells : Cells} {reports : List Event}

theorem Settled.after (h : s.Settled) (hafter : s.After cells reports t) (hcells : cells.Sound) :
    t.Settled where
  detects := hafter.detectsCycles_eq.trans h.detects
  context := hafter.context_eq.trans h.context
  idle := hafter.evaluating_eq.trans h.idle
  sound := hafter.cells_eq ▸ hcells
  fresh := by
    intro e he hstale
    obtain ⟨events, hevents, -, hevent⟩ := hafter.journal
    rw [hevents] at he
    rcases List.mem_append.mp he with he | he
    · exact h.sound.not_hasUnreadable (hevent e he hstale)
    · exact h.fresh e he hstale

theorem Settled.compute (h : s.Settled) (r : Ref) :
    ∃ t, Sheet.compute r s = some (s.cells.shown [] r, t) ∧
      s.After (s.cells.refresh [] (s.cells.Reached [] [r])) [] t :=
  compute_of_guarded (.inl ⟨h.detects, h.idle⟩)

theorem settled_of_compute {r : Ref} {c : Cell} (h : s.Settled)
    (hrun : Sheet.compute r s = some (c, t)) : t.Settled := by
  obtain ⟨u, hu, hafter⟩ := h.compute r
  cases hrun.symm.trans hu
  exact h.after hafter (h.sound.refresh _ _)

theorem settled_of_execute {src : Text} {outcome : Outcome} (h : s.Settled)
    (hrun : execute src s = some (outcome, t)) : t.Settled := by
  obtain ⟨u, hu, hafter⟩ := execute_eq h.detects src
  cases hrun.symm.trans hu
  exact h.after hafter (h.sound.run (valid_of_readProgram none src))

/-- A listing reads cells one after the other, so it keeps what every read keeps. -/
theorem listCells_keeps {Q : Sheet → Prop} {rs : List Ref} {out : Output}
    {result : Option Ref × Output}
    (hread : ∀ {s t r c}, Q s → Sheet.compute r s = some (c, t) → Q t) (h : Q s)
    (hrun : listCells rs out s = some (result, t)) : Q t := by
  induction rs generalizing s out with
  | nil =>
    cases hrun
    exact h
  | cons r rs ih =>
    cases hcompute : Sheet.compute r s with
    | none => simp [listCells, Bind.bind, StateT.bind, hcompute] at hrun
    | some p =>
      have hnext := hread h hcompute
      simp only [listCells, Bind.bind, StateT.bind, hcompute, Option.bind_some] at hrun
      cases hwrite : out.write (listing r p.1 ++ [Text.newline]) with
      | some out' =>
        rw [hwrite] at hrun
        exact ih hnext hrun
      | none =>
        rw [hwrite] at hrun
        cases hrun
        exact hnext

theorem Reachable.settled (h : Reachable s) : s.Settled := by
  induction h with
  | new => exact ⟨rfl, rfl, rfl, Cells.sound_empty, by simp⟩
  | execute _ hrun ih => exact settled_of_execute ih hrun
  | compute _ hrun ih => exact settled_of_compute ih hrun
  | list _ hrun ih => exact listCells_keeps settled_of_compute ih hrun
  | clear _ ih => exact ⟨ih.detects, ih.context, ih.idle, Cells.sound_empty, ih.fresh⟩

/-- What holds without any cells, and is kept when caches are refreshed and when an assignment is
stored, holds of the cells of every reachable sheet. -/
theorem Reachable.cells_induction {P : Cells → Prop} (h : Reachable s) (empty : P .empty)
    (refresh : ∀ cells busy X, P cells → P (cells.refresh busy X))
    (insert : ∀ (cells : Cells) (target : Address) (e : Expression Factor) (v : Value),
      target.Valid → e.Valid (some target.ref) → P cells →
        P (cells.insert target.ref ⟨e.text, v⟩)) : P s.cells := by
  have hcompute {s t : Sheet} {r : Ref} {c : Cell} (hs : s.Settled ∧ P s.cells)
      (hrun : Sheet.compute r s = some (c, t)) : t.Settled ∧ P t.cells := by
    obtain ⟨u, hu, hafter⟩ := hs.1.compute r
    cases hrun.symm.trans hu
    exact ⟨settled_of_compute hs.1 hrun, hafter.cells_eq ▸ refresh _ _ _ hs.2⟩
  induction h with
  | new => exact empty
  | @execute s t src _ h hrun ih =>
    obtain ⟨u, hu, hafter⟩ := execute_eq h.settled.detects src
    cases hrun.symm.trans hu
    rw [hafter.cells_eq]
    exact Cells.run_keeps refresh insert (valid_of_readProgram none src) ih
  | compute h hrun ih => exact (hcompute ⟨h.settled, ih⟩ hrun).2
  | list h hrun ih =>
    exact (listCells_keeps (Q := fun s => s.Settled ∧ P s.cells) hcompute ⟨h.settled, ih⟩ hrun).2
  | clear _ _ => exact empty

/-- A stored text is parsed to its end with its own cell as context, and the match has that text. -/
theorem Settled.parse_expression (h : s.Settled) {r : Ref} {c : Cell} (hget : s.get? r = some c) :
    ∃ n t, Sheet.parse .expression (some r) c.expression s = some (some (n, []), t) ∧
      n.text = c.expression := by
  obtain ⟨e, he, htext⟩ := h.sound.readable r c hget
  obtain ⟨t, hparse⟩ := parse_expression_eq h.detects r c.expression
  rw [htext, Expression.read_text he] at hparse
  exact ⟨_, t, htext ▸ hparse, by rw [Expression.tree_text, htext]⟩

/-- In every reachable sheet nothing is under way, every stored text is parsed to its end with its
own cell as context by a match with that text, every stored text value is in quotes, not empty and
without quotes inside, and no read tells of a text that it cannot parse, nor has any before. -/
theorem Reachable.parse_stored (h : Reachable s) :
    s.context = none ∧ s.evaluating = [] ∧
    (∀ r c, s.get? r = some c →
      (∃ n t, Sheet.parse .expression (some r) c.expression s = some (some (n, []), t) ∧
        n.text = c.expression) ∧
      ∀ text, c.value = .str text → ∃ body, body ≠ [] ∧ Text.byte '"' ∉ body ∧
        text = Text.byte '"' :: (body ++ [Text.byte '"'])) ∧
    (∀ e, Event.logged e ∈ s.journal → ¬ e.isStale) ∧
    ∀ r, ∃ c t events, Sheet.compute r s = some (c, t) ∧ t.journal = events ++ s.journal ∧
      ∀ e, Event.logged e ∈ events → ¬ e.isStale := by
  have hsettled := h.settled
  refine ⟨hsettled.context, hsettled.idle, fun r c hget => ⟨hsettled.parse_expression hget, ?_⟩,
    hsettled.fresh, fun r => ?_⟩
  · intro text htext
    obtain ⟨body, ⟨hne, hbody⟩, rfl⟩ := hsettled.sound.quoted r c hget text htext
    refine ⟨body, hne, fun hmem => ?_, rfl⟩
    simpa using hbody _ hmem
  · obtain ⟨t, hrun, hafter⟩ := hsettled.compute r
    obtain ⟨events, hevents, -, hstale⟩ := hafter.journal
    refine ⟨_, t, events, hrun, hevents, fun e he hse => ?_⟩
    exact hsettled.sound.not_hasUnreadable (hstale e he hse)

/-- A text that was assigned, and what a read of its cell parses. -/
theorem Reachable.parse_stored_quoted : ∃ s, Reachable s ∧
    s.get? ⟨0, 0⟩ = some ⟨Text.ofString "\"x + y\"", .str (Text.ofString "\"x + y\"")⟩ ∧
    s.context = none ∧ s.evaluating = [] ∧
    ∃ n t, Sheet.parse .expression (some ⟨0, 0⟩) (Text.ofString "\"x + y\"") s =
      some (some (n, []), t) ∧ n.text = Text.ofString "\"x + y\"" := by
  have hread : readProgram none (Text.ofString "A1 := \"x + y\"") =
      ([.assign ⟨Text.ofString "A", ⟨Text.ofString "1", 1⟩, ⟨0, 0⟩⟩
        (.quoted (Text.ofString "x + y"))], []) := by decide +kernel
  obtain ⟨s, hrun, hafter⟩ := execute_eq (s := { detectsCycles := true }) rfl
    (Text.ofString "A1 := \"x + y\"")
  rw [hread] at hafter
  have hget : s.get? ⟨0, 0⟩ =
      some ⟨Text.ofString "\"x + y\"", .str (Text.ofString "\"x + y\"")⟩ := by
    rw [Sheet.get?, hafter.cells_eq]
    simp only [Cells.run, Cells.step, Cells.get?_insert, if_true]
    rfl
  have hreachable : Reachable s := .execute .new hrun
  obtain ⟨hcontext, hidle, hstored, -⟩ := hreachable.parse_stored
  exact ⟨s, hreachable, hget, hcontext, hidle, (hstored _ _ hget).1⟩

end Sheet

end Spreadsheet
