import Spreadsheet.Proofs.Formula.Extension
import Spreadsheet.Proofs.Sheet.Execution

/-! # Executing sources one after the other

A source that is read to its end can be followed by another one on a new line: executing the two as
one text does what executing them in turn does, unless the second one opens with a mark that
continues the last expression of the first.
-/
namespace Spreadsheet

open Formula

/-- A program and another one on a new line read as the statements of both. -/
theorem Formula.readProgram_newline (context : Option Ref) {p q : Text}
    (hblank : Text.isBlank (readProgram context p).2)
    (hq : ∀ b ∈ q.trimStart.head?, b ≠ Text.byte '+' ∧ b ≠ Text.byte '*') :
    (readProgram context (p ++ Text.byte '\n' :: q)).1 =
        (readProgram context p).1 ++ (readProgram context q).1 ∧
      (readProgram context (p ++ Text.byte '\n' :: q)).2.trim = (readProgram context q).2.trim := by
  have htail : ∀ b ∈ (Text.byte '\n' :: q).head?, Text.isVisible b = false := by
    intro b hb
    cases hb
    decide
  have hline : Text.trim (Text.byte '\n' :: q) = q.trim := by
    have hstart := Text.trimStart_blank_append (b := [Text.byte '\n']) (by decide) q
    rw [Text.trim, Text.trim, ← hstart]
    rfl
  have hface : Faces (Text.byte '\n' :: q) EndsSum (readProgram context p).2 := by
    intro u hu b hb
    rw [hu.trim_of_isBlank hblank, hline] at hb
    have hhead : b ∈ q.trimStart.head? := by
      obtain ⟨r, hr⟩ := Text.trimEnd_prefix_self q.trimStart
      rw [← hr, List.head?_append, Option.mem_def, Option.or_eq_some_iff]
      exact .inl hb
    exact ⟨(hq b hhead).2, (hq b hhead).1⟩
  obtain ⟨rest, hrest, hread⟩ := readProgram_extends htail (continued_append _ p) hface
  have htrim : rest.trim = q.trim := (hrest.trim_of_isBlank hblank).trans hline
  obtain ⟨hstatements, hleft⟩ := many_eq_of_trim (consumes_statement context)
    (trims_statement context) htrim
  rw [hread]
  exact ⟨congrArg _ hstatements, hleft⟩

/-- A mark on the new line is no such text: the last expression of the first program goes on
there. -/
example : (readProgram none (Text.ofString "A1 := 2\n+ 3")).1 ≠
    (readProgram none (Text.ofString "A1 := 2")).1 ++ (readProgram none (Text.ofString "+ 3")).1 := by
  decide +kernel

/-- Let executing `p` leave only blanks over, and let `q` not open with `+` or `*`. Then executing
`p`, a line break and `q` as one text leaves the cells and makes the reports that executing `p` and
then `q` does, and leaves the same over, up to blanks. -/
theorem Sheet.execute_newline {s t : Sheet} {p q : Text} {outcome : Outcome}
    (hon : s.detectsCycles = true) (hp : execute p s = some (outcome, t))
    (hblank : Text.isBlank outcome.rest)
    (hq : ∀ b ∈ q.trimStart.head?, b ≠ Text.byte '+' ∧ b ≠ Text.byte '*') :
    ∃ rest u rest' v, execute q t = some (⟨rest, true⟩, u) ∧
      execute (p ++ Text.byte '\n' :: q) s = some (⟨rest', true⟩, v) ∧ rest'.trim = rest.trim ∧
      v.cells = u.cells ∧ v.journal.filter Event.isPrinted = u.journal.filter Event.isPrinted := by
  obtain ⟨t', hfirst, ht⟩ := execute_eq hon p
  cases hp.symm.trans hfirst
  obtain ⟨u, hsecond, hu⟩ := execute_eq (ht.detectsCycles_eq.trans hon) q
  obtain ⟨v, hboth, hv⟩ := execute_eq hon (p ++ Text.byte '\n' :: q)
  obtain ⟨hstatements, hrest⟩ := readProgram_newline none hblank hq
  rw [ht.evaluating_eq, ht.cells_eq] at hu
  refine ⟨_, u, _, v, hsecond, hboth, hrest, ?_, ?_⟩
  · rw [hv.cells_eq, hstatements, Cells.run_append, hu.cells_eq]
  · rw [hv.filter_journal, hstatements, Cells.runReports_append, hu.filter_journal,
      ht.filter_journal, List.append_assoc]

/-- What an execution leaves over is known from the text alone. -/
theorem Sheet.rest_of_execute {s t : Sheet} {src rest : Text} (hon : s.detectsCycles = true)
    (h : execute src s = some (⟨rest, true⟩, t)) : rest = (readProgram none src).2 := by
  obtain ⟨u, hu, -⟩ := execute_eq hon src
  cases h.symm.trans hu
  rfl

/-- The second source defines what the first one uses, and leaves a digit over that its last word
does not take. -/
theorem Sheet.execute_newline_defines :
    ∃ t u v, execute (Text.ofString "A1 := B1 * 2 \u3000") { detectsCycles := true } =
        some (⟨[], true⟩, t) ∧
      execute (Text.ofString "\tB1:=r0c1 print_value A1 4\n") t = some (⟨Text.ofString " 4", true⟩, u) ∧
      execute (Text.ofString "A1 := B1 * 2 \u3000\n\tB1:=r0c1 print_value A1 4\n")
        { detectsCycles := true } = some (⟨Text.ofString " 4", true⟩, v) ∧
      v.cells = u.cells ∧
      v.journal.filter Event.isPrinted = u.journal.filter Event.isPrinted := by
  have hon : ({ detectsCycles := true } : Sheet).detectsCycles = true := rfl
  generalize hfirst : Text.ofString "A1 := B1 * 2 \u3000" = p
  generalize hsecond : Text.ofString "\tB1:=r0c1 print_value A1 4\n" = q
  have hboth : Text.ofString "A1 := B1 * 2 \u3000\n\tB1:=r0c1 print_value A1 4\n" =
      p ++ Text.byte '\n' :: q := by
    rw [← hfirst, ← hsecond]
    decide +kernel
  have hleft : (readProgram none p).2 = [] := by
    rw [← hfirst]
    decide +kernel
  have hq : ∀ b ∈ q.trimStart.head?, b ≠ Text.byte '+' ∧ b ≠ Text.byte '*' := by
    rw [← hsecond]
    decide +kernel
  obtain ⟨t, hp, ht⟩ := execute_eq hon p
  obtain ⟨rest, u, rest', v, hu, hv, -, hcells, hreports⟩ :=
    execute_newline hon hp (by rw [hleft]; rfl) hq
  have hrest : rest = Text.ofString " 4" := by
    rw [rest_of_execute (ht.detectsCycles_eq.trans hon) hu, ← hsecond]
    decide +kernel
  have hrest' : rest' = Text.ofString " 4" := by
    rw [rest_of_execute hon hv, ← hboth]
    decide +kernel
  rw [hleft] at hp
  rw [hboth, ← hrest]
  exact ⟨t, u, v, hp, hu, hrest.trans hrest'.symm ▸ hv, hcells, hreports⟩

end Spreadsheet
