import Spreadsheet.Proofs.Formula.Abstract
import Spreadsheet.Proofs.Sheet.Execution

/-! # A reference interpreter

The interpreter folds a program of abstract syntax over cells without caches. Executing the program,
written with any blanks before its words, stores the same texts, makes the same reports in the same
order, and leaves in each assigned cell the value that the interpreter computes at that moment.
-/
namespace Spreadsheet

open Formula

/-- Cells, and the reports made so far in their order. -/
structure World where
  cells : Cells
  reports : List Report

namespace World

/-- What a print statement reports: the contents of the cell that it names, or of its expression. -/
def report (busy : List Ref) (w : World) (kind : ReportKind) (e : Expression Operand) : Report :=
  let shown : Cell := match e.cell? none with
    | some r => w.cells.shown busy r
    | none => ⟨e.spelling, e.valueFrom none (w.cells.valueOf busy)⟩
  ⟨kind, e.spelling, e.cell? none, match kind with
    | .value => shown.value.text
    | .expression => shown.expression⟩

/-- One instruction, while the cells of `busy` count as empty. -/
def perform (busy : List Ref) (w : World) : Instruction → World
  | .assign target e =>
    match target.ref? with
    | some r =>
      ⟨w.cells.insert r ⟨e.spelling, e.valueFrom (some r) (w.cells.valueOf busy)⟩, w.reports⟩
    | none => w
  | .print kind e => { w with reports := w.reports ++ [w.report busy kind e] }

def interpret (busy : List Ref) (program : List Instruction) (cells : Cells) : World :=
  program.foldl (perform busy) ⟨cells, []⟩

/-- The reports as events outside of any context, newest first. -/
def events (w : World) : List Event := (w.reports.map (Event.printed · none)).reverse

end World

section Simulation

variable {busy : List Ref} {cells : Cells} {w : World}

theorem Formula.Expression.single_factor {e : Expression Operand} {origin : Option Ref}
    (he : e.WellFormed origin) : (e.map (Operand.factor origin)).single? = e.cell? origin := by
  cases e with
  | quoted body => rfl
  | sum terms =>
    obtain ⟨⟨o, os⟩, ts⟩ := terms
    have ho : o.WellFormed origin := he _ List.mem_cons_self _ List.mem_cons_self
    cases os with
    | cons p ps => rfl
    | nil =>
      cases ts with
      | cons c cs => rfl
      | nil => exact Operand.head_refs_factor ho

/-- What is printed depends on no cache. -/
theorem World.report_eq (h : cells.SameSources w.cells) {e : Expression Operand}
    (he : e.WellFormed none) (kind : ReportKind) :
    cells.report busy kind (e.map (Operand.factor none)) = w.report busy kind e := by
  have hvalue : cells.valueOf busy = w.cells.valueOf busy := funext (h.valueOf_eq busy)
  have hshown : cells.shown busy = w.cells.shown busy := funext (h.shown_eq busy)
  cases hcell : e.cell? none with
  | none =>
    cases kind <;> simp only [Cells.report, World.report, Expression.single_factor he, hcell,
      Expression.text_factor, Expression.eval_factor he, hvalue]
  | some r =>
    cases kind <;> simp only [Cells.report, World.report, Expression.single_factor he, hcell,
      Expression.text_factor, hshown]

/-- A statement and its instruction take cells with the same sources to such cells again. -/
theorem World.sameSources_perform (h : cells.SameSources w.cells) {c : Instruction}
    (hc : c.WellFormed) :
    (cells.step busy c.statement).SameSources (w.perform busy c).cells := by
  have hvalue : cells.valueOf busy = w.cells.valueOf busy := funext (h.valueOf_eq busy)
  cases c with
  | assign target e =>
    have href := (CellName.valid_address hc.1).2
    have he := href ▸ hc.2
    simp only [Instruction.statement, Cells.step, World.perform, href, Expression.text_factor,
      Expression.eval_factor he, hvalue]
    exact Cells.SameSources.insert ((Cells.sameSources_refresh _ _ _).symm.trans h) _ _
  | print kind e => exact (Cells.sameSources_refresh _ _ _).symm.trans h

theorem World.events_perform (h : cells.SameSources w.cells) {c : Instruction} (hc : c.WellFormed) :
    cells.stepReports busy none c.statement ++ w.events = (w.perform busy c).events := by
  cases c with
  | assign target e =>
    have href := (CellName.valid_address hc.1).2
    simp only [Instruction.statement, Cells.stepReports, World.perform, href]
    rfl
  | print kind e =>
    simp [Instruction.statement, Cells.stepReports, World.perform, World.events,
      World.report_eq h hc]

/-- A run and its interpretation end in cells with the same sources, and with the same reports. -/
theorem World.simulates {program : List Instruction} (hprogram : ∀ c ∈ program, c.WellFormed)
    (h : cells.SameSources w.cells) :
    (Cells.run busy (program.map Instruction.statement) cells).SameSources
        (program.foldl (perform busy) w).cells ∧
      Cells.runReports busy none (program.map Instruction.statement) cells ++ w.events =
        (program.foldl (perform busy) w).events := by
  induction program generalizing cells w with
  | nil => exact ⟨h, rfl⟩
  | cons c program ih =>
    have hc := hprogram c List.mem_cons_self
    obtain ⟨hcells, hevents⟩ := ih (fun d hd => hprogram d (List.mem_cons_of_mem c hd))
      (World.sameSources_perform h hc)
    refine ⟨hcells, ?_⟩
    rw [List.foldl_cons, ← hevents, ← World.events_perform h hc]
    simp [Cells.runReports]

theorem World.simulates_interpret {program : List Instruction}
    (hprogram : ∀ c ∈ program, c.WellFormed) (busy : List Ref) (cells : Cells) :
    (Cells.run busy (program.map Instruction.statement) cells).SameSources
        (interpret busy program cells).cells ∧
      Cells.runReports busy none (program.map Instruction.statement) cells =
        (interpret busy program cells).events := by
  have hinitial : cells.SameSources (World.mk cells []).cells := .refl cells
  obtain ⟨hcells, hevents⟩ := World.simulates hprogram hinitial
  refine ⟨hcells, ?_⟩
  rw [interpret, ← hevents]
  exact (List.append_nil _).symm

end Simulation

section Texts

variable {program : List Instruction} {s : Sheet} {t : Text}

/-- A well-formed program is read back from its words, whatever blanks stand before them. -/
theorem Formula.readProgram_spaced (hprogram : ∀ c ∈ program, c.WellFormed)
    (ht : Spaced (program.flatMap Instruction.words) t) :
    readProgram none t = (program.map Instruction.statement, []) := by
  have hvalid : ∀ st ∈ program.map Instruction.statement, st.Valid none := by
    intro st hst
    obtain ⟨c, hc, rfl⟩ := List.mem_map.mp hst
    exact Instruction.valid_statement (hprogram c hc)
  have hwords : (program.map Instruction.statement).flatMap Statement.words =
      program.flatMap Instruction.words := by
    rw [List.flatMap_map]
    congr 1
    funext c
    exact Instruction.words_statement c
  exact readProgram_written hvalid ⟨hwords ▸ ht, Statement.isToken_flatMap_words hvalid⟩

theorem Sheet.execute_instructions (hprogram : ∀ c ∈ program, c.WellFormed)
    (hon : s.detectsCycles = true) (ht : Spaced (program.flatMap Instruction.words) t) :
    ∃ u, execute t s = some (⟨[], true⟩, u) ∧
      s.After (Cells.run s.evaluating (program.map Instruction.statement) s.cells)
        (Cells.runReports s.evaluating none (program.map Instruction.statement) s.cells) u := by
  obtain ⟨u, hexecute, hu⟩ := execute_eq hon t
  rw [readProgram_spaced hprogram ht] at hexecute hu
  exact ⟨u, hexecute, hu⟩

/-- Right after an assignment its target holds the value that the cells before it give. -/
theorem Cells.get?_run_assign {busy : List Ref} {cells : Cells} {before : List Instruction}
    {target : CellName} {e : Expression Operand} (hbefore : ∀ c ∈ before, c.WellFormed)
    (hassign : (Instruction.assign target e).WellFormed) :
    (Cells.run busy ((before ++ [Instruction.assign target e]).map Instruction.statement)
        cells).get? target.address.ref =
      some ⟨e.spelling, e.valueFrom (some target.address.ref)
        ((World.interpret busy before cells).cells.valueOf busy)⟩ := by
  have hsources := (World.simulates_interpret hbefore busy cells).1
  have hvalue := funext (hsources.valueOf_eq busy)
  have href := (CellName.valid_address hassign.1).2
  have he := href ▸ hassign.2
  rw [List.map_append, Cells.run_append]
  simp only [List.map_cons, List.map_nil, Cells.run, Instruction.statement, Cells.step,
    Cells.get?_insert, if_true, Expression.text_factor, hvalue, href, Expression.eval_factor he]

/-- A text of two programs is two texts, and executing one after the other comes to the same end. -/
theorem Sheet.execute_append {first second : List Instruction} {u : Sheet}
    (hfirst : ∀ c ∈ first, c.WellFormed) (hsecond : ∀ c ∈ second, c.WellFormed)
    (hon : s.detectsCycles = true) (ht : Spaced ((first ++ second).flatMap Instruction.words) t)
    (hu : s.After (Cells.run s.evaluating ((first ++ second).map Instruction.statement) s.cells)
      (Cells.runReports s.evaluating none ((first ++ second).map Instruction.statement) s.cells)
      u) :
    ∃ t₁ t₂ v w, t = t₁ ++ t₂ ∧
      Spaced (first.flatMap Instruction.words) t₁ ∧ Spaced (second.flatMap Instruction.words) t₂ ∧
      execute t₁ s = some (⟨[], true⟩, v) ∧ execute t₂ v = some (⟨[], true⟩, w) ∧
      v.cells = Cells.run s.evaluating (first.map Instruction.statement) s.cells ∧
      w.cells = u.cells ∧
      w.journal.filter Event.isPrinted = u.journal.filter Event.isPrinted := by
  rw [List.flatMap_append] at ht
  obtain ⟨t₁, t₂, rfl, ht₁, ht₂⟩ := ht.exists_of_append
  obtain ⟨v, hexecute, hv⟩ := execute_instructions hfirst hon ht₁
  obtain ⟨w, hexecute', hw⟩ := execute_instructions hsecond (hv.detectsCycles_eq.trans hon) ht₂
  rw [hv.evaluating_eq, hv.cells_eq] at hw
  refine ⟨t₁, t₂, v, w, rfl, ht₁, ht₂, hexecute, hexecute', hv.cells_eq, ?_, ?_⟩
  · rw [hw.cells_eq, hu.cells_eq, List.map_append, Cells.run_append]
  · rw [hw.filter_journal, hv.filter_journal, hu.filter_journal, List.map_append,
      Cells.runReports_append, List.append_assoc]

theorem World.get?_foldl_perform {busy : List Ref} {w : World} {r : Ref}
    (h : ∀ c ∈ program, c.target? ≠ some r) :
    (program.foldl (perform busy) w).cells.get? r = w.cells.get? r := by
  induction program generalizing w with
  | nil => rfl
  | cons c program ih =>
    rw [List.foldl_cons, ih fun d hd => h d (List.mem_cons_of_mem c hd)]
    have hc := h c List.mem_cons_self
    cases c with
    | print kind e => rfl
    | assign target e =>
      cases href : target.ref? with
      | none => simp only [perform, href]
      | some x =>
        have hx : r ≠ x := by
          rintro rfl
          exact hc href
        simp only [perform, href, Cells.get?_insert, if_neg hx]

/-- The text of an expression is evaluated as the expression, wherever it is stored. -/
theorem Cells.valueOf_spelling {cells : Cells} {busy : List Ref} {r : Ref}
    {e : Expression Operand} (he : e.WellFormed (some r))
    (h : (cells.get? r).map (·.expression) = some e.spelling) (hr : r ∉ busy) :
    cells.valueOf busy r = e.valueFrom (some r) (cells.valueOf (r :: busy)) := by
  obtain ⟨c, hget, hexpression⟩ := Option.map_eq_some_iff.mp h
  have hformula : c.formula? r = some (e.map (Operand.factor (some r))) := by
    rw [Cell.formula?, hexpression, ← Expression.text_factor,
      Expression.read_text (Expression.valid_factor he)]
    rfl
  rw [Cells.valueOf_formula hget hr hformula, Expression.eval_factor he]

/-- Executing a well-formed program, written with any blanks before its words, leaves nothing over.
The cells then have the texts and show the values that the interpreter gives, and the reports are
the interpreter's, in the same order. The text up to any assignment can be executed first and the
rest after it, to the same end; in between, the target holds the value that the interpreter
computes. From the last assignment to a cell on, its value is that of the expression, over the cells
as they are. -/
theorem Sheet.execute_spaced (hprogram : ∀ c ∈ program, c.WellFormed)
    (hon : s.detectsCycles = true) (ht : Spaced (program.flatMap Instruction.words) t) :
    ∃ u, execute t s = some (⟨[], true⟩, u) ∧
      (∀ r, (u.get? r).map (·.expression) =
        ((World.interpret s.evaluating program s.cells).cells.get? r).map (·.expression)) ∧
      (∀ r, u.cells.shown s.evaluating r =
        (World.interpret s.evaluating program s.cells).cells.shown s.evaluating r) ∧
      u.journal.filter Event.isPrinted =
        (World.interpret s.evaluating program s.cells).events ++
          s.journal.filter Event.isPrinted ∧
      ∀ before target e after, program = before ++ .assign target e :: after →
        ∃ t₁ t₂ v w r, t = t₁ ++ t₂ ∧
          Spaced ((before ++ [.assign target e]).flatMap Instruction.words) t₁ ∧
          Spaced (after.flatMap Instruction.words) t₂ ∧
          execute t₁ s = some (⟨[], true⟩, v) ∧ execute t₂ v = some (⟨[], true⟩, w) ∧
          w.cells = u.cells ∧
          w.journal.filter Event.isPrinted = u.journal.filter Event.isPrinted ∧
          target.ref? = some r ∧
          v.get? r = some ⟨e.spelling, e.valueFrom (some r)
            ((World.interpret s.evaluating before s.cells).cells.valueOf s.evaluating)⟩ ∧
          ((∀ c ∈ after, c.target? ≠ some r) → ∀ busy, r ∉ busy →
            u.cells.valueOf busy r = e.valueFrom (some r) (u.cells.valueOf (r :: busy))) := by
  obtain ⟨u, hexecute, hu⟩ := execute_instructions hprogram hon ht
  obtain ⟨hsources, hevents⟩ := World.simulates_interpret hprogram s.evaluating s.cells
  have hexpressions : ∀ r, (u.get? r).map (·.expression) =
      ((World.interpret s.evaluating program s.cells).cells.get? r).map (·.expression) := by
    intro r
    rw [Sheet.get?, hu.cells_eq]
    exact hsources.expression_eq r
  refine ⟨u, hexecute, hexpressions, fun r => ?_, ?_, ?_⟩
  · rw [hu.cells_eq]
    exact hsources.shown_eq s.evaluating r
  · rw [hu.filter_journal, hevents]
  · rintro before target e after rfl
    rw [List.append_cons] at hprogram ht hu
    rw [List.forall_mem_append] at hprogram
    obtain ⟨hfirst, hafter⟩ := hprogram
    obtain ⟨hbefore, hassign⟩ := List.forall_mem_append.mp hfirst
    have htarget := hassign _ List.mem_cons_self
    have href := (CellName.valid_address htarget.1).2
    obtain ⟨t₁, t₂, v, w, htext, ht₁, ht₂, hv, hw, hcells, hsame, hreports⟩ :=
      execute_append hfirst hafter hon ht hu
    refine ⟨t₁, t₂, v, w, target.address.ref, htext, ht₁, ht₂, hv, hw, hsame, hreports, href,
      ?_, fun hlast busy hr => ?_⟩
    · rw [Sheet.get?, hcells]
      exact Cells.get?_run_assign hbefore htarget
    · refine Cells.valueOf_spelling (href ▸ htarget.2) ?_ hr
      rw [← Sheet.get?, hexpressions, World.interpret, List.foldl_append, List.foldl_cons,
        World.get?_foldl_perform hlast]
      simp [World.perform, href, Cells.get?_insert]

end Texts

/-- A formula with a relative reference, the cell that it refers to, and a report on its value. -/
def doubling : List Instruction :=
  [.assign ⟨Text.ofString "A", 1⟩
      (.sum ⟨⟨.literal 2, [.relative 0 1]⟩, [⟨.literal (-3), []⟩]⟩),
    .assign ⟨Text.ofString "B", 1⟩ (.sum ⟨⟨.literal 5, []⟩, []⟩),
    .print .value (.sum ⟨⟨.absolute ⟨Text.ofString "A", 1⟩, []⟩, []⟩)]

theorem wellFormed_doubling : ∀ c ∈ doubling, c.WellFormed := by
  have hA : (CellName.mk (Text.ofString "A") 1).WellFormed := ⟨⟨0, by decide +kernel⟩, by decide⟩
  have hB : (CellName.mk (Text.ofString "B") 1).WellFormed := ⟨⟨1, by decide +kernel⟩, by decide⟩
  have hshift : (Operand.relative 0 1).WellFormed (CellName.mk (Text.ofString "A") 1).ref? :=
    ⟨⟨0, 1⟩, by decide +kernel⟩
  simp only [doubling, List.mem_cons, List.not_mem_nil, forall_eq_or_imp, Instruction.WellFormed,
    Expression.WellFormed, Chain.toList, false_implies, implies_true, and_true]
  exact ⟨⟨hA, ⟨trivial, hshift⟩, trivial⟩, ⟨hB, trivial⟩, hA⟩

/-- Blanks of one, two and three bytes, and words that touch across statements. -/
theorem spaced_doubling : Spaced (doubling.flatMap Instruction.words)
    (Text.ofString "\u3000A 1 :=2*\u00a0r 0c1+-3B1:=5print_value\nA1") := by
  have hgaps := Spaced.of_gaps [([.char '\u3000'], Text.ofString "A"),
    ([.char ' '], Text.ofString "1"), ([.char ' '], Text.ofString ":="),
    ([], Text.ofString "2"), ([], Text.ofString "*"), ([.char '\u00a0'], Text.ofString "r"),
    ([.char ' '], Text.ofString "0"), ([], Text.ofString "c"), ([], Text.ofString "1"),
    ([], Text.ofString "+"), ([], Text.ofString "-3"), ([], Text.ofString "B"),
    ([], Text.ofString "1"), ([], Text.ofString ":="), ([], Text.ofString "5"),
    ([], Text.ofString "print_value"), ([.char '\n'], Text.ofString "A"),
    ([], Text.ofString "1")] (by decide +kernel)
  convert hgaps using 1 <;> decide +kernel

theorem Sheet.execute_spaced_doubling :
    (∀ c ∈ doubling, c.WellFormed) ∧ ({ detectsCycles := true } : Sheet).detectsCycles = true ∧
    Spaced (doubling.flatMap Instruction.words)
      (Text.ofString "\u3000A 1 :=2*\u00a0r 0c1+-3B1:=5print_value\nA1") ∧
    ∃ u, execute (Text.ofString "\u3000A 1 :=2*\u00a0r 0c1+-3B1:=5print_value\nA1")
        { detectsCycles := true } = some (⟨[], true⟩, u) ∧
      (u.get? ⟨0, 0⟩).map (·.expression) = some (Text.ofString "2*r0c1+-3") ∧
      u.journal.filter Event.isPrinted =
        [.printed ⟨.value, Text.ofString "A1", some ⟨0, 0⟩, Text.ofString "7"⟩ none] := by
  have hwell := wellFormed_doubling
  have ht := spaced_doubling
  have hon : ({ detectsCycles := true } : Sheet).detectsCycles = true := rfl
  refine ⟨hwell, hon, ht, ?_⟩
  obtain ⟨u, hexecute, hexpressions, hshown, hreports, hsplit⟩ := execute_spaced hwell hon ht
  obtain ⟨-, -, -, -, r, -, -, -, -, -, -, -, hr, -, hvalue⟩ :=
    hsplit [] _ _ (doubling.drop 1) rfl
  obtain ⟨-, -, -, -, x, -, -, -, -, -, -, -, hx, -, hvalue'⟩ :=
    hsplit (doubling.take 1) _ _ (doubling.drop 2) rfl
  obtain rfl : r = ⟨0, 0⟩ := by
    have href : (CellName.mk (Text.ofString "A") 1).ref? = some ⟨0, 0⟩ := by decide +kernel
    exact Option.some.inj (hr.symm.trans href)
  obtain rfl : x = ⟨0, 1⟩ := by
    have href : (CellName.mk (Text.ofString "B") 1).ref? = some ⟨0, 1⟩ := by decide +kernel
    exact Option.some.inj (hx.symm.trans href)
  have hne : (⟨0, 0⟩ : Ref) ≠ ⟨0, 1⟩ := by decide
  have hspelling : (u.get? ⟨0, 0⟩).map (·.expression) = some (Text.ofString "2*r0c1+-3") := by
    rw [hexpressions]
    simp only [World.interpret, doubling, List.foldl, World.perform, hr, hx, Cells.get?_insert,
      if_neg hne, if_true, Option.map_some]
    decide +kernel
  have hright : u.cells.valueOf [⟨0, 0⟩] ⟨0, 1⟩ = .int 5 := by
    rw [hvalue' (by decide +kernel) [⟨0, 0⟩] (by decide)]
    rfl
  have hleft : u.cells.valueOf [] ⟨0, 0⟩ = .int 7 := by
    have hshift : ((some ⟨0, 0⟩ : Option Ref).bind fun r => r.shift? 0 1) = some ⟨0, 1⟩ := by
      decide +kernel
    rw [hvalue (by decide +kernel) [] (by decide)]
    simp only [Expression.valueFrom, Expression.map, Expression.value, Chain.map, List.map,
      Operand.value, hshift, Option.map_some, Option.getD_some, hright]
    decide +kernel
  refine ⟨u, hexecute, hspelling, ?_⟩
  have hcell : (Expression.sum ⟨⟨Operand.absolute ⟨Text.ofString "A", 1⟩, []⟩, []⟩).cell? none =
      some ⟨0, 0⟩ := hr
  have htext := congrArg Cell.value (hshown ⟨0, 0⟩)
  rw [Cells.shown_value, hleft] at htext
  rw [hreports]
  simp only [World.interpret, doubling, List.foldl, World.perform, hr, hx, World.events,
    World.report, hcell] at htext ⊢
  rw [← htext]
  decide +kernel

end Spreadsheet
