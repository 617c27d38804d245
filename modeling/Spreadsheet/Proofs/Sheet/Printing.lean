import Spreadsheet.Proofs.Sheet.Arithmetic

/-! # What print statements report

A print statement computes its expression, and then looks at the text once more: if this is a single
reference, the cell is computed again and the report is on the cell. Either way the value is the one
that the expression was given at first.
-/
namespace Spreadsheet

open Formula Grammar

section Single

variable {e : Expression Factor} {r : Ref}

/-- Nothing is combined in a single reference. -/
theorem Formula.Expression.eval_of_single (env : Ref → Value) (h : e.single? = some r) :
    e.eval env = env r := by
  obtain ⟨f, rfl, hr⟩ := single?_eq_some_iff.mp h
  cases f with
  | integer n => cases hr
  | absolute a =>
    cases hr
    rfl
  | relative rows cols x =>
    cases hr
    rfl

/-- The cell of a single reference shows the value that the expression has. -/
theorem Cells.report_value (cells : Cells) (busy : List Ref) (e : Expression Factor) :
    (cells.report busy .value e).text = (e.eval (cells.valueOf busy)).text := by
  cases hsingle : e.single? with
  | none => simp only [Cells.report, hsingle]
  | some r =>
    simp only [Cells.report, hsingle]
    rw [Cells.shown_value, Expression.eval_of_single _ hsingle]

theorem Cells.report_expression_of_single (cells : Cells) (busy : List Ref) (h : e.single? = some r) :
    (cells.report busy .expression e).text = ((cells.get? r).map (·.expression)).getD [] := by
  simp only [Cells.report, h]
  exact cells.shown_expression busy r

theorem Cells.report_expression_of_none (cells : Cells) (busy : List Ref) (h : e.single? = none) :
    (cells.report busy .expression e).text = e.text := by
  simp only [Cells.report, h]

end Single

namespace Sheet

variable {s t : Sheet} {context : Option Ref} {src rest : Text} {n : Tree}

/-- An expression is a single reference exactly if its tree has one factor, and this refers to a
cell. -/
theorem single?_eq_some_iff_factorNodes {e : Expression Factor} {r : Ref} {env : Ref → Value}
    (he : e.Valid (context.or s.context)) : e.single? = some r ↔
      ∃ f, factorNodes (e.tree env) = [[f]] ∧ s.RefersTo context f.text r := by
  rw [← refersTo_text he]
  constructor
  · intro hrefers
    obtain ⟨f, rfl, -⟩ := Expression.single?_eq_some_iff.mp ((refersTo_text he).mp hrefers)
    refine ⟨f.tree env, factorNodes_sum _, ?_⟩
    simpa [Expression.text_sum, Chain.join] using hrefers
  · rintro ⟨m, hnodes, hrefers⟩
    -- with one factor the text of the expression is that of the factor
    cases e with
    | quoted body => cases hnodes
    | sum terms =>
      obtain ⟨⟨f, fs⟩, cs⟩ := terms
      simp only [factorNodes_sum, Chain.toList, List.map_cons, List.cons.injEq, List.map_eq_nil_iff]
        at hnodes
      obtain ⟨⟨rfl, rfl⟩, rfl⟩ := hnodes
      simpa [Expression.text_sum, Chain.join] using hrefers

/-- What a print statement that is accepted was, and what it left behind. -/
theorem exists_of_parse_printHead (hon : s.detectsCycles = true)
    (hparse : parse .printHead context src s = some (some (n, rest), t)) :
    ∃ kind e, e.Valid (context.or s.context) ∧
      n = (Statement.print kind e).tree (s.cells.valueOf s.evaluating) ∧
      s.After (s.cells.computed s.evaluating e)
        [.printed (s.cells.report s.evaluating kind e) (context.or s.context)] t := by
  have hfuel : 9 + src.length ≤ (grammar effects).depth src := by
    have := le_depth effects src
    omega
  obtain ⟨st, hread, rfl, hafter⟩ := exists_of_parse_statement
    (fun st rest hread => gives_printHead hon hfuel hread)
    (fun hread => gives_printHead_none hon hfuel hread) hparse
  have hkind : ∃ kind, Statement.readPrint (context.or s.context) kind src = some (st, rest) := by
    rcases Option.or_eq_some_iff.mp hread with h | ⟨-, h⟩
    · exact ⟨.value, h⟩
    · exact ⟨.expression, h⟩
  obtain ⟨kind, hprint⟩ := hkind
  obtain ⟨middle, e, -, he, rfl⟩ := Statement.readPrint_eq_some hprint
  exact ⟨kind, e, Expression.valid_of_read he, rfl, hafter⟩

/-- A print statement makes one report. It is on a cell exactly if the expression has one factor and
this refers to the cell. The value is that of the expression in either case; the expression is the
one stored in the cell, or else the one that was printed. -/
theorem parse_printHead_reports (hon : s.detectsCycles = true)
    (hparse : parse .printHead context src s = some (some (n, rest), t)) :
    ∃ mark expr report,
      n.children = [mark, expr] ∧ mark.text = Text.ofString report.kind.keyword ∧
      report.source = expr.text ∧
      (∃ u, parse .expression context expr.text s = some (some (expr, []), u)) ∧
      t.journal.filter Event.isPrinted =
        .printed report (context.or s.context) :: s.journal.filter Event.isPrinted ∧
      (∀ r, report.cell = some r ↔
        ∃ f, factorNodes expr = [[f]] ∧ s.RefersTo context f.text r) ∧
      (report.kind = .value → report.text = expr.attr.value.text) ∧
      (report.kind = .expression →
        (∀ r, report.cell = some r → report.text = ((s.get? r).map (·.expression)).getD []) ∧
        (report.cell = none → report.text = expr.text)) := by
  obtain ⟨kind, e, he, rfl, hafter⟩ := exists_of_parse_printHead hon hparse
  refine ⟨_, _, s.cells.report s.evaluating kind e, rfl, rfl, (Expression.tree_text _ e).symm,
    exists_parse_tree hon he, hafter.filter_journal, fun r => single?_eq_some_iff_factorNodes he,
    ?_, ?_⟩
  · rintro rfl
    rw [Expression.tree_attr]
    exact s.cells.report_value s.evaluating e
  · rintro rfl
    rw [Expression.tree_text]
    exact ⟨fun r hr => s.cells.report_expression_of_single s.evaluating hr,
      fun hnone => s.cells.report_expression_of_none s.evaluating hnone⟩

/-- The cell two columns to the left is computed twice before its value is reported. -/
theorem parse_printHead_reports_doubled : doubled.detectsCycles = true ∧ ∃ n rest t mark expr report,
    parse .printHead (some ⟨0, 2⟩) (Text.ofString "print_value r0c-2 !") doubled =
      some (some (n, rest), t) ∧
    n.children = [mark, expr] ∧ mark.text = Text.ofString report.kind.keyword ∧
    (∃ u, parse .expression (some ⟨0, 2⟩) expr.text doubled = some (some (expr, []), u)) ∧
    t.journal.filter Event.isPrinted = [.printed report (some ⟨0, 2⟩)] ∧
    (∀ r, report.cell = some r ↔
      ∃ f, factorNodes expr = [[f]] ∧ doubled.RefersTo (some ⟨0, 2⟩) f.text r) ∧
    report = ⟨.value, Text.ofString "r0c-2", some ⟨0, 0⟩, Text.ofString "6"⟩ ∧
    report.text = expr.attr.value.text := by
  refine ⟨rfl, ?_⟩
  have hrun : (parse .printHead (some ⟨0, 2⟩) (Text.ofString "print_value r0c-2 !") doubled).map
        (fun p => (p.1.isSome, p.2.journal.filter Event.isPrinted)) =
      some (true, [.printed ⟨.value, Text.ofString "r0c-2", some ⟨0, 0⟩, Text.ofString "6"⟩
        (some ⟨0, 2⟩)]) := by
    decide +kernel
  obtain ⟨⟨result, t⟩, hparse, heq⟩ := Option.map_eq_some_iff.mp hrun
  simp only [Prod.mk.injEq] at heq
  obtain ⟨⟨n, rest⟩, rfl⟩ := Option.isSome_iff_exists.mp heq.1
  obtain ⟨mark, expr, report, hchildren, hmark, -, hexpr, hjournal, hcell, hvalue, -⟩ :=
    parse_printHead_reports rfl hparse
  have hreport : report = ⟨.value, Text.ofString "r0c-2", some ⟨0, 0⟩, Text.ofString "6"⟩ := by
    have hone := hjournal.symm.trans heq.2
    simp only [List.cons.injEq, Event.printed.injEq] at hone
    exact hone.1.1
  exact ⟨n, rest, t, mark, expr, report, hparse, hchildren, hmark, hexpr, by rw [heq.2, hreport],
    hcell, hreport, hvalue (by rw [hreport])⟩

end Sheet
end Spreadsheet
