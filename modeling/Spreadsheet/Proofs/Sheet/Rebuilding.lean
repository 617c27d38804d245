import Spreadsheet.Proofs.Ref.Label
import Spreadsheet.Proofs.Sheet.Assignments
import Spreadsheet.Proofs.Sheet.Reachable

/-! # Rebuilding a sheet from its cells

Every cell that a program can assign has a label, and its label is read as the cell. So the cells of
a reachable sheet can be written as one assignment each, and the program that they make stores them
again. Cells are assigned before those that they refer to, and reads show the same all the same.
-/
namespace Spreadsheet

open Formula Grammar Text

namespace Cells

variable {cells : Cells}

/-- Every stored cell can be addressed by its label. -/
def Named (cells : Cells) : Prop := ∀ r ∈ cells.refs, r.address.Valid

theorem Named.insert (h : cells.Named) {a : Address} (ha : a.Valid) (c : Cell) :
    (cells.insert a.ref c).Named := by
  intro r hr
  obtain ⟨d, hd⟩ := mem_refs.mp hr
  rw [get?_insert] at hd
  by_cases hra : r = a.ref
  · rw [hra]
    exact ha.address_ref
  · rw [if_neg hra] at hd
    exact h r (mem_refs.mpr ⟨d, hd⟩)

/-- The sources tell which cells are stored. -/
theorem SameSources.refs_eq {s t : Cells} (h : s.SameSources t) : s.refs = t.refs := by
  refine refs_congr fun r => ?_
  simpa only [Option.isSome_map] using congrArg Option.isSome (h r)

theorem lookup_expressions (entries : List Entry) (r : Ref) :
    (entries.map fun e => (e.1, e.2.expression)).lookup r =
      (entries.lookup r).map (·.expression) := by
  induction entries with
  | nil => rfl
  | cons e entries ih =>
    rw [List.map_cons, List.lookup_cons, List.lookup_cons, ih]
    cases r == e.1 <;> rfl

/-- Assignments of all stored texts make cells with the same sources out of none. -/
theorem Sound.sameSources_run {busy : List Ref} {context : Option Ref} {sts : List Statement}
    (h : cells.Sound) (hsts : ∀ st ∈ sts, st.Valid context)
    (hassign : sts.filterMap Statement.assignment? =
      cells.entries.map fun e => (e.1, e.2.expression)) :
    (Cells.run busy sts .empty).SameSources cells := by
  intro r
  have hnodup : ((cells.entries.map fun e => (e.1, e.2.expression)).reverse.map (·.1)).Nodup := by
    rw [List.map_reverse, List.nodup_reverse, List.map_map]
    exact cells.nodup_refs
  rw [source_get?_run hsts, hassign, Sheet.lookup_eq_of_perm (List.reverse_perm _) hnodup,
    lookup_expressions]
  change (((cells.get? r).map (·.expression)).map _).or none = _
  cases hget : cells.get? r with
  | none => rfl
  | some c =>
    obtain ⟨e, he, htext⟩ := h.readable r c hget
    have hformula : c.formula? r = some e := by
      rw [Cell.formula?, htext, Expression.read_text he]
      rfl
    simp [Cell.source, hformula]

/-- Assignments print nothing. -/
theorem runReports_eq_nil {busy : List Ref} {context : Option Ref} {sts : List Statement}
    (h : ∀ st ∈ sts, st.assignment?.isSome) : runReports busy context sts cells = [] := by
  induction sts generalizing cells with
  | nil => rfl
  | cons st sts ih =>
    rw [runReports, ih fun x hx => h x (List.mem_cons_of_mem st hx)]
    cases st with
    | assign target e => rfl
    | print kind e => exact absurd (h _ List.mem_cons_self) (by simp [Statement.assignment?])

end Cells

namespace Sheet

variable {s : Sheet}

theorem Reachable.named (h : Reachable s) : s.cells.Named := by
  refine h.cells_induction ?_ ?_ ?_
  · intro r hr
    cases hr
  · intro cells busy X hcells r hr
    rw [Cells.refs_refresh] at hr
    exact hcells r hr
  · intro cells target e v htarget _ hcells
    exact hcells.insert htarget _

def entryText (e : Entry) : Text := e.1.label ++ ofString " := " ++ e.2.expression

/-- The stored cells as assignments, one to a line, in row-major order. -/
def program (s : Sheet) : Text := joinWith [newline] (s.cells.entries.map entryText)

theorem takes_assignment (target : Address) (e : Expression Factor) :
    Takes (Statement.assign target e).words
      (target.words.flatten ++ ofString " := " ++ e.text) [] := by
  have hspace : IsGap (ofString " ") := .of_mem_blanks (by decide)
  have hmark : Takes [ofString ":="] (ofString " := " ++ e.text) (ofString " " ++ e.text) :=
    ⟨ofString " " ++ ofString ":=", [], by rw [List.append_nil]; rfl, .single hspace _, .nil⟩
  have hexpression : Takes (e.words Factor.words) e.text [] := by
    have := takes_flatten (e.words Factor.words) []
    rwa [List.append_nil] at this
  rw [List.append_assoc]
  exact (takes_flatten target.words _).append (hmark.append (hexpression.gap_append hspace))

/-- The program of named entries with readable texts consists of one assignment for each. -/
theorem exists_statements (entries : List Entry) (hnamed : ∀ e ∈ entries, e.1.address.Valid)
    (hreadable : ∀ e ∈ entries, ∃ x : Expression Factor, x.Valid (some e.1) ∧
      e.2.expression = x.text) :
    ∃ sts : List Statement, (∀ st ∈ sts, st.Valid none ∧ st.assignment?.isSome) ∧
      sts.filterMap Statement.assignment? = entries.map (fun e => (e.1, e.2.expression)) ∧
      Takes (sts.flatMap Statement.words) (joinWith [newline] (entries.map entryText)) [] := by
  induction entries with
  | nil => exact ⟨[], by simp, rfl, .nil []⟩
  | cons e entries ih =>
    obtain ⟨sts, hsts, hassign, htakes⟩ := ih (fun x hx => hnamed x (List.mem_cons_of_mem e hx))
      fun x hx => hreadable x (List.mem_cons_of_mem e hx)
    obtain ⟨x, hx, htext⟩ := hreadable e List.mem_cons_self
    have hst : (Statement.assign e.1.address x).assignment? = some (e.1, e.2.expression) := by
      rw [htext]
      rfl
    refine ⟨.assign e.1.address x :: sts, ?_, ?_, ?_⟩
    · rw [List.forall_mem_cons]
      exact ⟨⟨⟨hnamed e List.mem_cons_self, hx⟩, rfl⟩, hsts⟩
    · rw [List.filterMap_cons_some hst, hassign, List.map_cons]
    · have hline : Takes (Statement.assign e.1.address x).words (entryText e) [] := by
        rw [entryText, htext, ← Ref.words_address]
        exact takes_assignment _ _
      exact hline.joinWith_cons (.of_mem_blanks (by decide)) htakes

/-- A reachable sheet can be rebuilt from its program. Executed in a new sheet, the program leaves
nothing but blanks, prints nothing and stores the same cells with the same texts, and every read
shows what it shows in the sheet itself. -/
theorem Reachable.execute_program (h : Reachable s) :
    ∃ outcome t, Sheet.execute s.program { detectsCycles := true } = some (outcome, t) ∧
      outcome.accepted = true ∧ isBlank outcome.rest ∧ t.journal.filter Event.isPrinted = [] ∧
      t.cells.refs = s.cells.refs ∧
      (∀ r, (t.get? r).map (·.expression) = (s.get? r).map (·.expression)) ∧
      ∀ r, ∃ c s' t', Sheet.compute r s = some (c, s') ∧ Sheet.compute r t = some (c, t') := by
  have hsettled := h.settled
  obtain ⟨sts, hsts, hassign, htakes⟩ := exists_statements s.cells.entries
    (fun e he => h.named e.1 (List.mem_map_of_mem he))
    fun e he => hsettled.sound.readable e.1 e.2 (Cells.get?_eq_some_iff.mpr he)
  obtain ⟨gap, hread, hgap⟩ := exists_readProgram_eq (fun st hst => (hsts st hst).1) htakes
  obtain ⟨t, hrun, hafter⟩ := execute_eq (s := { detectsCycles := true }) rfl s.program
  rw [program, hread] at hrun hafter
  have hsources : t.cells.SameSources s.cells := by
    rw [hafter.cells_eq]
    exact hsettled.sound.sameSources_run (fun st hst => (hsts st hst).1) hassign
  refine ⟨_, t, hrun, rfl, hgap.isBlank, ?_, hsources.refs_eq, hsources.expression_eq, fun r => ?_⟩
  · rw [hafter.filter_journal, Cells.runReports_eq_nil fun st hst => (hsts st hst).2]
    rfl
  · obtain ⟨s', hs', -⟩ := hsettled.compute r
    obtain ⟨t', ht', -⟩ := compute_of_detects (s := t) hafter.detectsCycles_eq r
    rw [hsources.shown_eq, hafter.evaluating_eq] at ht'
    exact ⟨_, s', t', hs', ht'⟩

/-- Row number 0, a cell that refers to itself, one that is assigned before the cell it refers to,
and a text over two lines. -/
def scattered : Text := ofString "B2 := A0 * 2 ZZ007 := \" x\n\" A0 := 7  C1 := r0c0 + 1"

theorem Reachable.execute_program_scattered : ∃ s t : Sheet, Reachable s ∧
    s.program = ofString "A0 := 7\nC1 := r0c0+1\nB2 := A0*2\nZZ7 := \" x\n\"" ∧
    (∃ outcome, Sheet.execute s.program { detectsCycles := true } = some (outcome, t) ∧
      outcome.accepted = true ∧ isBlank outcome.rest) ∧
    t.journal.filter Event.isPrinted = [] ∧
    t.cells.refs = [⟨-1, 0⟩, ⟨0, 2⟩, ⟨1, 1⟩, ⟨6, 701⟩] ∧
    ∃ t', Sheet.compute ⟨1, 1⟩ t = some (⟨ofString "A0*2", .int 14⟩, t') := by
  obtain ⟨s, hrun, -⟩ := execute_eq (s := { detectsCycles := true }) rfl scattered
  have hstart : (Sheet.execute scattered { detectsCycles := true }).map
      (fun p => (p.2.program, p.2.cells.refs)) =
      some (ofString "A0 := 7\nC1 := r0c0+1\nB2 := A0*2\nZZ7 := \" x\n\"",
        [⟨-1, 0⟩, ⟨0, 2⟩, ⟨1, 1⟩, ⟨6, 701⟩]) := by decide +kernel
  have hvalue : ((Sheet.execute scattered { detectsCycles := true }).bind
      fun p => (Sheet.compute ⟨1, 1⟩ p.2).map (·.1)) = some ⟨ofString "A0*2", .int 14⟩ := by
    decide +kernel
  rw [hrun] at hstart hvalue
  obtain ⟨hprogram, hrefs⟩ := Prod.mk.inj (Option.some.inj hstart)
  have hreachable : Reachable s := .execute .new hrun
  obtain ⟨outcome, t, hexecute, haccepted, hblank, hprinted, hsame, -, hcompute⟩ :=
    hreachable.execute_program
  obtain ⟨c, s', t', hs', ht'⟩ := hcompute ⟨1, 1⟩
  rw [Option.bind_some, hs'] at hvalue
  cases hvalue
  exact ⟨s, t, hreachable, hprogram, ⟨outcome, hexecute, haccepted, hblank⟩, hprinted,
    hsame.trans hrefs, t', ht'⟩

end Sheet

end Spreadsheet
