import Spreadsheet.Proofs.Sheet.Execution

/-! # Canonical text

The text of the match of a program is its words without blanks. It reads as the same program, so
executing it does what executing the source did, and its own match has the same text.
-/
namespace Spreadsheet

open Formula

/-- The words of a program that was read, without blanks, read as the same program, to the end. -/
theorem Formula.readProgram_words (context : Option Ref) (src : Text) :
    readProgram context ((readProgram context src).1.flatMap Statement.words).flatten =
      ((readProgram context src).1, []) := by
  have hvalid := valid_of_readProgram context src
  exact readProgram_written hvalid (written_flatten (Statement.isToken_flatMap_words hvalid))

/-- Let the match of a source have the text `n.text`. Executing that text from the same sheet leaves
nothing over, gives a match with that text again, and leaves the same cells, cached values included,
and the same reports in the same order. -/
theorem Sheet.execute_text_eq (s : Sheet) (hon : s.detectsCycles = true) (src : Text) :
    ∃ n rest t u, matchProgram src s = some (some (n, rest), t) ∧
      execute src s = some (⟨rest, true⟩, u) ∧
      ∃ n' t' u', matchProgram n.text s = some (some (n', []), t') ∧ n'.text = n.text ∧
        execute n.text s = some (⟨[], true⟩, u') ∧ u'.cells = u.cells ∧
        u'.journal.filter Event.isPrinted = u.journal.filter Event.isPrinted := by
  obtain ⟨t, hmatch, ht⟩ := matchProgram_eq hon src
  obtain ⟨t', hmatch', ht'⟩ := matchProgram_eq hon
    ((readProgram none src).1.flatMap Statement.words).flatten
  rw [readProgram_words] at hmatch' ht'
  refine ⟨_, _, t, _, hmatch, execute_of_match hmatch, ?_⟩
  rw [Cells.runTree_text]
  refine ⟨_, t', _, hmatch', Cells.runTree_text _ _ _, execute_of_match hmatch', ?_, ?_⟩
  · rw [(ht'.debug _).cells_eq, (ht.debug _).cells_eq]
  · rw [(ht'.debug _).filter_journal, (ht.debug _).filter_journal]

/-- Blanks go, and so does a rest that is no statement. -/
theorem Sheet.execute_text_eq_spaced :
    ({ detectsCycles := true } : Sheet).detectsCycles = true ∧
    ∃ u u', execute (Text.ofString " A1 := B1 * 2\n B1:=r0c -1+ 3 print_value  A1 C4 := !")
        { detectsCycles := true } = some (⟨Text.ofString " C4 := !", true⟩, u) ∧
      execute (Text.ofString "A1:=B1*2B1:=r0c-1+3print_valueA1") { detectsCycles := true } =
        some (⟨[], true⟩, u') ∧ u'.cells = u.cells ∧
      u'.journal.filter Event.isPrinted = u.journal.filter Event.isPrinted := by
  refine ⟨rfl, ?_⟩
  generalize hsrc : Text.ofString " A1 := B1 * 2\n B1:=r0c -1+ 3 print_value  A1 C4 := !" = src
  have hwords : ((readProgram none src).1.flatMap Statement.words).flatten =
      Text.ofString "A1:=B1*2B1:=r0c-1+3print_valueA1" := by
    rw [← hsrc]
    decide +kernel
  have hrest : (readProgram none src).2 = Text.ofString " C4 := !" := by
    rw [← hsrc]
    decide +kernel
  obtain ⟨n, rest, t, u, hmatch, hexecute, n', t', u', -, -, hexecute', hcells, hreports⟩ :=
    execute_text_eq { detectsCycles := true } rfl src
  obtain ⟨v, hv, -⟩ := matchProgram_eq (s := { detectsCycles := true }) rfl src
  have hresult := hmatch.symm.trans hv
  simp only [Option.some.injEq, Prod.mk.injEq] at hresult
  obtain ⟨⟨rfl, rfl⟩, -⟩ := hresult
  rw [hrest] at hexecute
  rw [Cells.runTree_text, hwords] at hexecute'
  exact ⟨u, u', hexecute, hexecute', hcells, hreports⟩

end Spreadsheet
