import Spreadsheet.Proofs.Formula.Characters
import Spreadsheet.Proofs.Sheet.Listing
import Spreadsheet.Proofs.Sheet.Rebuilding
import Spreadsheet.Proofs.Viewer.Session

/-! # Accepting what the prompt offers

The prompt offers the assignment of the cell at the cursor as a line of characters. Accepted as it
is, the line assigns to the cell what it holds already. A line has no stray bytes, so those of a
text in quotes are lost to replacement characters; all else stays.
-/
namespace Spreadsheet

open Formula Text

namespace Sheet

variable {s : Sheet}

/-- An assignment with nothing before it and nothing after it is executed to the end, and prints
nothing. -/
theorem execute_assignment (hon : s.detectsCycles = true) {target : Address}
    {e : Expression Factor} (htarget : target.Valid) (he : e.Valid (some target.ref)) :
    ∃ outcome t, Sheet.execute (target.words.flatten ++ ofString " := " ++ e.text) s =
        some (outcome, t) ∧ isBlank outcome.rest ∧
      s.After (s.cells.step s.evaluating (.assign target e)) [] t := by
  have hvalid : ∀ st ∈ [Statement.assign target e], st.Valid none :=
    List.forall_mem_singleton.mpr ⟨htarget, he⟩
  obtain ⟨gap, hread, hgap⟩ := exists_readProgram_eq hvalid
    (by rw [List.flatMap_singleton]; exact takes_assignment target e)
  obtain ⟨t, hrun, hafter⟩ := execute_eq hon (target.words.flatten ++ ofString " := " ++ e.text)
  rw [hread] at hrun hafter
  exact ⟨_, t, hrun, hgap.isBlank, hafter⟩

end Sheet

namespace Viewer

variable {v w : Viewer}

/-- A viewer after its sheet was read: caches may be others, and something may have been logged. -/
structure Redrawn (v w : Viewer) : Prop where
  frame : w = { v with sheet := w.sheet }
  detects : w.sheet.detectsCycles = true
  sources : w.sheet.cells.SameSources v.sheet.cells

theorem Redrawn.exists_compute (h : v.Redrawn w) (r : Ref) :
    ∃ c t, w.compute r = some (c, t) ∧ v.Redrawn t := by
  obtain ⟨sheet, hcompute, hafter⟩ := Sheet.compute_of_detects h.detects r
  refine ⟨_, { w with sheet }, by rw [compute, hcompute]; rfl, ?_, ?_, ?_⟩
  · rw [h.frame]
  · exact hafter.detectsCycles_eq.trans h.detects
  · change sheet.cells.SameSources _
    rw [hafter.cells_eq]
    exact .trans (Cells.SameSources.symm (Cells.sameSources_refresh _ _ _)) h.sources

theorem storedExpression_eq (v : Viewer) (r : Ref) :
    v.storedExpression r = ((v.sheet.get? r).map (·.expression)).getD [] := by
  rw [storedExpression]
  cases v.sheet.get? r <;> rfl

/-- Only the grid grows to cover a sheet. -/
theorem frame_coverSheet (v : Viewer) :
    v.coverSheet = { v with rows := v.coverSheet.rows, widths := v.coverSheet.widths } := by
  unfold coverSheet reachColumn reachRow
  dsimp only
  split <;> rfl

/-- Assigning to a stored cell changes no other text and leaves no message. The grid may grow. -/
theorem Redrawn.exists_runStatement (h : v.Redrawn w) {target : Address} {e : Expression Factor}
    (htarget : target.Valid) (he : e.Valid (some target.ref))
    (hstored : target.ref ∈ v.sheet.cells.refs) :
    ∃ outcome sheet t,
      Sheet.execute (target.words.flatten ++ ofString " := " ++ e.text)
        { w.sheet with journal := [] } = some (outcome, sheet) ∧
      sheet.journal.filter Event.isPrinted = [] ∧
      runStatement (target.words.flatten ++ ofString " := " ++ e.text) w = some ((), t) ∧
      t = { v with sheet := t.sheet, message := [], rows := t.rows, widths := t.widths } ∧
      t.sheet.cells.refs = v.sheet.cells.refs ∧
      ∀ r, t.storedExpression r = if r = target.ref then e.text else v.storedExpression r := by
  obtain ⟨outcome, sheet, hexecute, hblank, hafter⟩ :=
    Sheet.execute_assignment (s := { w.sheet with journal := [] }) h.detects htarget he
  have hprinted : sheet.journal.filter Event.isPrinted = [] := hafter.filter_journal
  have hget (r : Ref) : (sheet.get? r).map (·.expression) =
      if r = target.ref then some e.text else (v.sheet.get? r).map (·.expression) := by
    rw [Sheet.get?, hafter.cells_eq, Cells.step, Cells.get?_insert]
    split
    · rfl
    · have hcomputed := Cells.SameSources.symm (Cells.sameSources_refresh w.sheet.cells
        w.sheet.evaluating (w.sheet.cells.Reached w.sheet.evaluating e.refs))
      exact (hcomputed.trans h.sources).expression_eq r
  have hmessage : Text.joinWith (ofString "; ") (reportLines sheet.journal.reverse) = [] := by
    rw [← Sheet.reportLines_filter, List.filter_reverse, hprinted]
    rfl
  refine ⟨outcome, sheet, _, hexecute, hprinted, by rw [runStatement, hexecute]; rfl, ?_, ?_, ?_⟩
  · simp only [isEmpty_trim, hblank, if_true, hmessage]
    rw [frame_coverSheet, h.frame]
  · rw [sheet_coverSheet]
    refine Cells.refs_congr fun r => ?_
    have hsome := congrArg Option.isSome (hget r)
    by_cases hr : r = target.ref
    · obtain ⟨c, hc⟩ := Cells.mem_refs.mp hstored
      rw [if_pos hr, Option.isSome_map] at hsome
      exact hsome.trans (by rw [hr, hc]; rfl)
    · rwa [if_neg hr, Option.isSome_map, Option.isSome_map] at hsome
  · intro r
    rw [storedExpression_eq, storedExpression_eq, sheet_coverSheet]
    refine (congrArg (Option.getD · []) (hget r)).trans ?_
    split <;> rfl

end Viewer

namespace Session

variable {s : Session}

/-- Enter accepts the line that is offered, which has no stray bytes. -/
theorem askLine_accepts (hon : s.viewer.sheet.detectsCycles = true)
    (hcorner : 0 ≤ s.viewer.corner.col.toInt) {ctrl : Bool} {pending : List Input}
    (hpending : s.terminal.pending = .key ⟨.enter, ctrl⟩ :: pending) (prompt initial : Text) :
    Succeeds (askLine prompt initial) s fun answer t => answer = some initial.repair ∧
      s.viewer.Redrawn t.viewer ∧ t.terminal.pending = pending := by
  obtain ⟨slots, hslots⟩ : ∃ slots, s.viewer.slots s.terminal.width = .ok slots :=
    ⟨_, by rw [Viewer.slots, if_neg (not_neg_of_toInt hcorner)]⟩
  have hpaint := succeeds_paint Viewer.Redrawn.exists_compute hslots
    (⟨rfl, hon, .refl _⟩ : s.viewer.Redrawn s.viewer)
  have hbox : Succeeds (paintBox prompt (.ofText initial)) s fun _ t =>
      s.viewer.Redrawn t.viewer ∧ t.terminal.pending = s.terminal.pending := by
    refine hpaint.bind fun _ t ht => .updateTerminal ⟨ht.1, ?_⟩
    rw [ht.2]
  refine hbox.bind fun _ t ht => .getTerminal ?_
  rw [ht.2, hpending]
  exact ⟨_, { t with terminal := { t.terminal with pending } }, rfl, rfl, ht.1, rfl⟩

/-- The prompt runs the line that it got. -/
theorem press_of_askLine {ctrl : Bool} {src : Text} {u : Session} {v : Viewer}
    (hhelp : s.viewer.showsHelp = false)
    (hask : (askLine (ofString ":") (s.viewer.assignmentText s.viewer.cursor)).run s =
      some (.ok (some src), u))
    (hrun : Viewer.runStatement src u.viewer = some ((), v)) :
    (press ⟨.char ':', ctrl⟩).run s = some (.ok (), { u with viewer := v }) := by
  have hpress : Succeeds (press ⟨.char ':', ctrl⟩) s fun _ t => t = { u with viewer := v } := by
    refine .getViewer ?_
    simp only [hhelp, Bool.false_eq_true, if_false]
    have hline : Succeeds _ s fun answer t => answer = some src ∧ t = u := ⟨_, u, hask, rfl, rfl⟩
    refine .getViewer (hline.bind ?_)
    rintro _ _ ⟨rfl, rfl⟩
    exact .onViewer hrun rfl
  obtain ⟨_, t, hrun, rfl⟩ := hpress
  exact hrun

/-- Opening the prompt on a stored cell and accepting what it offers prints nothing, leaves no
message and stores the same cells; of the viewer nothing else changes, but the grid may grow to
cover its sheet. The texts of the other cells stay, and that of the cell has replacement characters
for its stray bytes. So all texts stay exactly if that of the cell is UTF-8. -/
theorem press_accept_keeps_cells {base : Sheet} {journal : List Event} (h : base.Reachable)
    (hsheet : s.viewer.sheet = { base with journal }) (hstored : s.viewer.cursor ∈ base.cells.refs)
    (hhelp : s.viewer.showsHelp = false) (hcorner : 0 ≤ s.viewer.corner.col.toInt)
    {ctrl : Bool} {pending : List Input}
    (hpending : s.terminal.pending = .key ⟨.enter, ctrl⟩ :: pending) (ctrl' : Bool) :
    ∃ src u outcome sheet t,
      (askLine (ofString ":") (s.viewer.assignmentText s.viewer.cursor)).run s =
        some (.ok (some src), u) ∧
      Sheet.execute src { u.viewer.sheet with journal := [] } = some (outcome, sheet) ∧
      sheet.journal.filter Event.isPrinted = [] ∧
      (press ⟨.char ':', ctrl'⟩).run s = some (.ok (), t) ∧ t.terminal.pending = pending ∧
      t.viewer = { s.viewer with
        sheet := t.viewer.sheet, message := [], rows := t.viewer.rows, widths := t.viewer.widths } ∧
      t.viewer.sheet.cells.refs = s.viewer.sheet.cells.refs ∧
      (∀ r, t.viewer.storedExpression r =
        if r = s.viewer.cursor then (s.viewer.storedExpression r).repair
        else s.viewer.storedExpression r) ∧
      ((∀ r, t.viewer.storedExpression r = s.viewer.storedExpression r) ↔
        ∀ b, Glyph.stray b ∉ (s.viewer.storedExpression s.viewer.cursor).glyphs) := by
  have hon : s.viewer.sheet.detectsCycles = true := hsheet ▸ h.settled.detects
  obtain ⟨c, hc⟩ := Cells.mem_refs.mp hstored
  obtain ⟨e, he, htext⟩ := h.settled.sound.readable _ c hc
  have htarget : s.viewer.cursor.address.Valid := h.named _ hstored
  have hexpression : s.viewer.storedExpression s.viewer.cursor = e.text := by
    rw [Viewer.storedExpression, hsheet, ← htext]
    change ((base.cells.get? _).getD {}).expression = _
    rw [hc]
    rfl
  have hline : (s.viewer.assignmentText s.viewer.cursor).repair =
      s.viewer.cursor.address.words.flatten ++ ofString " := " ++ e.repair.text := by
    rw [Viewer.assignmentText, hexpression, ← Ref.words_address]
    exact repair_assignment htarget he
  obtain ⟨_, u, hask, rfl, hredrawn, htaken⟩ := askLine_accepts hon hcorner hpending (ofString ":")
    (s.viewer.assignmentText s.viewer.cursor)
  rw [hline] at hask
  obtain ⟨outcome, sheet, v, hexecute, hprinted, hrun, hframe, hrefs, htexts⟩ :=
    hredrawn.exists_runStatement htarget he.repair (hsheet ▸ hstored)
  have hkept (r : Ref) : v.storedExpression r =
      if r = s.viewer.cursor then (s.viewer.storedExpression r).repair
      else s.viewer.storedExpression r := by
    rw [htexts]
    refine ite_congr rfl (fun hr => ?_) fun _ => rfl
    rw [hr, hexpression]
    exact Expression.text_repair he
  refine ⟨_, u, outcome, sheet, { u with viewer := v }, hask, hexecute, hprinted,
    press_of_askLine hhelp hask hrun, htaken, hframe, hrefs, hkept, ?_⟩
  rw [← repair_eq_self_iff]
  constructor
  · intro hall
    have hcursor := hkept s.viewer.cursor
    rw [if_pos rfl, hall] at hcursor
    exact hcursor.symm
  · intro hsame r
    rw [hkept]
    by_cases hr : r = s.viewer.cursor
    · rw [if_pos hr, hr, hsame]
    · rw [if_neg hr]

/-- A viewer of a sheet with the first cell selected, where Enter is the next key. -/
def confirming (sheet : Sheet) : Session :=
  ⟨.ofSheet sheet 12 false, { width := 40, height := 8, pending := [.key ⟨.enter, false⟩] }⟩

/-- Text of several bytes a character and on two lines, in a cell that another one refers to. -/
theorem press_accept_keeps_cells_lines : ∃ base t, Sheet.Reachable base ∧
    base.cells.refs = [⟨-1, 0⟩, ⟨0, 0⟩, ⟨0, 1⟩] ∧
    (confirming base).viewer.storedExpression ⟨0, 0⟩ = ofString "\"é\n→\"" ∧
    (press ⟨.char ':', false⟩).run (confirming base) = some (.ok (), t) ∧
    t.viewer.message = [] ∧ t.viewer.sheet.cells.refs = base.cells.refs ∧
    ∀ r, t.viewer.storedExpression r = (confirming base).viewer.storedExpression r := by
  obtain ⟨base, hrun, -⟩ := Sheet.execute_eq (s := { detectsCycles := true }) rfl
    (ofString "B1 := r0c-1  A1 := \"é\n→\" A0 := 7")
  have hbase : (Sheet.execute (ofString "B1 := r0c-1  A1 := \"é\n→\" A0 := 7")
      { detectsCycles := true }).map (fun p => (p.2.cells.refs,
        (confirming p.2).viewer.storedExpression ⟨0, 0⟩, (confirming p.2).viewer.cursor,
        (confirming p.2).viewer.corner, (confirming p.2).viewer.showsHelp)) =
      some ([⟨-1, 0⟩, ⟨0, 0⟩, ⟨0, 1⟩], ofString "\"é\n→\"", ⟨0, 0⟩, ⟨0, 0⟩, false) := by
    decide +kernel
  rw [hrun] at hbase
  simp only [Option.map_some, Option.some.injEq, Prod.mk.injEq] at hbase
  obtain ⟨hrefs, htext, hcursor, hcorner, hhelp⟩ := hbase
  have hreachable : Sheet.Reachable base := .execute .new hrun
  have hsheet : (confirming base).viewer.sheet = { base with journal := base.journal } :=
    Viewer.sheet_ofSheet ..
  obtain ⟨_, _, _, _, t, -, -, -, hpress, -, hframe, hcells, -, hall⟩ :=
    press_accept_keeps_cells (s := confirming base) hreachable hsheet
      (by rw [hcursor, hrefs]; decide) hhelp (by rw [hcorner]; decide) rfl false
  refine ⟨base, t, hreachable, hrefs, htext, hpress, by rw [hframe], ?_, hall.mpr ?_⟩
  · rw [hcells]
    exact congrArg (·.cells.refs) hsheet
  · have hglyphs : (ofString "\"é\n→\"").glyphs = ['"', 'é', '\n', '→', '"'].map Glyph.char := by
      decide +kernel
    rw [hcursor, htext, hglyphs]
    simp

/-- A stray byte in a text is lost when the prompt is accepted. -/
theorem press_accept_loses_stray : ∃ base t, Sheet.Reachable base ∧
    (confirming base).viewer.storedExpression ⟨0, 0⟩ = [0x22, 0xFF, 0x22] ∧
    (press ⟨.char ':', false⟩).run (confirming base) = some (.ok (), t) ∧
    t.viewer.storedExpression ⟨0, 0⟩ = ofString "\"\uFFFD\"" := by
  let src : Text := ofString "A1 := " ++ [0x22, 0xFF, 0x22]
  obtain ⟨base, hrun, -⟩ := Sheet.execute_eq (s := { detectsCycles := true }) rfl src
  have hpress : ((Sheet.execute src { detectsCycles := true }).bind fun p =>
      ((press ⟨.char ':', false⟩).run (confirming p.2)).map fun q =>
        (q.1.isOk, (confirming p.2).viewer.storedExpression ⟨0, 0⟩,
          q.2.viewer.storedExpression ⟨0, 0⟩)) =
      some (true, [0x22, 0xFF, 0x22], ofString "\"\uFFFD\"") := by decide +kernel
  rw [hrun, Option.bind_some] at hpress
  obtain ⟨⟨result, t⟩, hstep, ht⟩ := Option.map_eq_some_iff.mp hpress
  simp only [Prod.mk.injEq] at ht
  obtain ⟨hok, hbefore, hafter⟩ := ht
  refine ⟨base, t, .execute .new hrun, hbefore, ?_, hafter⟩
  cases result with
  | ok a => exact hstep
  | error f => cases hok

end Session

end Spreadsheet
