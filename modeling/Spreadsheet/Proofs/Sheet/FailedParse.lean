import Spreadsheet.Proofs.Sheet.Execution

/-! # Failed parses

Effects of an abandoned alternative are not undone, so a parse that fails leaves no trace only by
the shape of the grammar: in every alternative, what may fail stands before the first cell that is
read, written or reported on. The rules are gone through one by one. A source that a program leaves
over is left over again, and executing it changes nothing.
-/
namespace Spreadsheet

open Formula Grammar

namespace Sheet

variable {α β : Type} {s : Sheet} {input : Text} {fuel : Nat} {symbol : Symbol}

/-- From `s` the computation ends, and if it gives nothing it has done no more than log. -/
def Clean (s : Sheet) (m : Computation Sheet (Option α)) : Prop :=
  ∃ result t, m s = some (result, t) ∧ (result = none → s.After s.cells [] t)

section Clean

variable {m : Computation Sheet (Option α)}

theorem clean_of_gives {result : Option α}
    (h : Gives (s.After s.cells []) m result (s.After s.cells [])) : s.Clean m := by
  obtain ⟨t, hm, ht⟩ := h s (After.refl s)
  exact ⟨result, t, hm, fun _ => ht⟩

theorem clean_of_gives_some {a : α} {Q : Sheet → Prop}
    (h : Gives (s.After s.cells []) m (some a) Q) : s.Clean m := by
  obtain ⟨t, hm, -⟩ := h s (After.refl s)
  exact ⟨some a, t, hm, by simp⟩

/-- A rule that matches what has been read. What it does when nothing was read decides. -/
theorem clean_of_read (read : Option (β × Text))
    (hnone : read = none → Gives (s.After s.cells []) m none (s.After s.cells []))
    (hsome : ∀ b rest, read = some (b, rest) → ∃ a Q, Gives (s.After s.cells []) m (some a) Q) :
    s.Clean m := by
  cases h : read with
  | none => exact clean_of_gives (hnone h)
  | some p =>
    obtain ⟨a, Q, hm⟩ := hsome p.1 p.2 h
    exact clean_of_gives_some hm

end Clean

section Expressions

theorem clean_of_matches {k : Nat} {read : Text → Option (α × Text)} {tree : α → Tree}
    {refs : α → List Ref} (hm : Matches effects (fun _ => True) s.reading symbol k read tree refs)
    (hfuel : k + input.length ≤ fuel) : s.Clean ((grammar effects).run fuel symbol input) :=
  clean_of_read (read input) (fun h => s.reading_nil ▸ hm.failure hfuel h)
    fun _ _ h => ⟨_, _, s.reading_nil ▸ hm.success hfuel h fun _ _ => trivial⟩

/-- A tail of a chain never fails: it may be empty. -/
theorem clean_of_matches_tail {item tail mark : Symbol} {word name : String}
    {op : Value → Value → Value} {k : Nat} {read : Text → Option (α × Text)} {tree : α → Tree}
    {refs : α → List Ref}
    (hm : Matches effects (fun _ => True) s.reading item (k + 1) read tree refs)
    (hmark : rule effects mark = literal word)
    (htail : rule effects tail = production name [[mark, item, tail], [.epsilon]]
      (some (combining op 1 2))) (hfuel : k + 2 + input.length ≤ fuel) :
    s.Clean ((grammar effects).run fuel tail input) :=
  clean_of_gives_some (s.reading_nil ▸ hm.gives_tail hmark htail hfuel fun _ _ _ _ => trivial)

end Expressions

section Statements

theorem clean_assignmentBody (hon : s.detectsCycles = true) (hfuel : 8 + input.length ≤ fuel) :
    s.Clean ((grammar effects).run fuel .assignmentBody input) := by
  cases htarget : Address.read input with
  | none =>
    obtain ⟨fuel, rfl⟩ : ∃ m, fuel = m + 3 + 1 := ⟨fuel - 4, by omega⟩
    have hnote (u : Sheet) (message : Text) (hu : s.After s.cells [] u) := hu.debug message
    exact clean_of_gives (gives_run_production rfl (gives_choose_next (gives_attempt_none
      (gives_sequence_head_none (gives_address_none hnote htarget))) gives_choose_nil))
  | some p =>
    exact clean_of_read _ (gives_assignmentBody_none hon hfuel htarget)
      fun _ _ h => ⟨_, _, gives_assignmentBody hon hfuel htarget h⟩

/-- A program always matches, whatever came before it. -/
theorem gives_program_after {cells : Cells} {reports : List Event} (hon : s.detectsCycles = true)
    (hfuel : 11 + input.length ≤ fuel) :
    Gives (s.After cells reports) ((grammar effects).run fuel .program input)
      (some (Cells.runTree s.evaluating (readProgram s.context input).1 cells,
        (readProgram s.context input).2)) fun _ => True := by
  intro t ht
  obtain ⟨u, hrun, -⟩ :=
    gives_program (ht.detectsCycles_eq.trans hon) ht.context_eq hfuel t (After.refl t)
  rw [ht.cells_eq, ht.evaluating_eq] at hrun
  exact ⟨u, hrun, trivial⟩

theorem clean_statement {head : Symbol} {name : String} (read : Text → Option (Statement × Text))
    (hrule : rule effects symbol = production name [[head, .program]])
    (hon : s.detectsCycles = true) (hread : Consumes read) (hfuel : 11 + input.length ≤ fuel)
    (hnone : read input = none →
      Gives (s.After s.cells []) ((grammar effects).run fuel head input) none (s.After s.cells []))
    (hsome : ∀ st rest, read input = some (st, rest) →
      Gives (s.After s.cells []) ((grammar effects).run fuel head input)
        (some (st.tree (s.cells.valueOf s.evaluating), rest))
        (s.After (s.cells.step s.evaluating st)
          (s.cells.stepReports s.evaluating s.context st))) :
    s.Clean ((grammar effects).run (fuel + 1) symbol input) := by
  refine clean_of_read (read input) (fun h => ?_) fun st rest h => ?_
  · exact gives_run_production hrule (gives_choose_next (gives_attempt_none
      (gives_sequence_head_none (hnone h))) gives_choose_nil)
  · have hlength := hread _ _ _ h
    exact ⟨_, _, gives_run_production hrule (gives_choose_first (gives_attempt_plain rfl rfl
      (gives_sequence_cons (hsome st rest h)
        (gives_sequence_cons (gives_program_after hon (by omega)) gives_sequence_nil))))⟩

theorem consumes_readAssignment : Consumes Statement.readAssignment := by
  intro input st rest h
  exact consumes_statement none input st rest (Option.or_eq_some_iff.mpr (.inl h))

theorem consumes_readPrint (context : Option Ref) : Consumes fun input =>
    (Statement.readPrint context .value input).or
      (Statement.readPrint context .expression input) := by
  intro input st rest h
  have hlength : rest.length + 2 ≤ input.length := by
    rcases Option.or_eq_some_iff.mp h with h | ⟨-, h⟩
    · exact Statement.length_readPrint h
    · exact Statement.length_readPrint h
  omega

end Statements

/-- Every rule of the grammar is clean on every sheet that detects cycles. -/
theorem clean_run (hon : s.detectsCycles = true) (hfuel : 13 + input.length ≤ fuel)
    (symbol : Symbol) : s.Clean ((grammar effects).run fuel symbol input) := by
  have hcontext (u : Sheet) (hu : s.After s.cells [] u) := hu.context_eq
  have hnote (u : Sheet) (message : Text) (hu : s.After s.cells [] u) := hu.debug message
  have hpassage := passage_effects hon
  obtain ⟨fuel, rfl⟩ : ∃ m, fuel = m + 13 := ⟨fuel - 13, by omega⟩
  cases symbol with
  | epsilon => exact clean_of_gives (gives_run_epsilon rfl)
  | integer | positiveInteger | upperAlphaString | stringNoQuote | rowMark | columnMark | times
    | plus | quoteMark | becomes | printValueWord | printExprWord =>
    exact clean_of_gives (gives_run_token rfl)
  | columnLabel =>
    exact clean_of_read _ gives_label_none fun _ _ h => ⟨_, _, gives_label h⟩
  | rowNumber =>
    exact clean_of_read _ gives_rowNumber_none fun _ _ h => ⟨_, _, gives_rowNumber h⟩
  | absoluteCell =>
    exact clean_of_read _ (gives_address_none hnote) fun _ _ h => ⟨_, _, gives_address h⟩
  | relativeCell =>
    refine clean_of_read _ (gives_relative_none hcontext) fun f rest h => ?_
    obtain ⟨-, rows, -, -, cols, -, ref, -, -, -, -, -, -, rfl⟩ := Factor.readRelative_eq_some h
    exact ⟨_, _, gives_relative hcontext h⟩
  | cellReference =>
    exact clean_of_read _ (gives_reference_none hcontext hnote)
      fun _ _ h => ⟨_, _, gives_reference hcontext hnote h⟩
  | quotedString =>
    exact clean_of_read _ gives_quoted_none fun _ _ h => ⟨_, _, gives_quoted h⟩
  | value => exact clean_of_matches hpassage.matches_value (by omega)
  | term => exact clean_of_matches hpassage.matches_term (by omega)
  | expression => exact clean_of_matches hpassage.matches_expression (by omega)
  | termTail => exact clean_of_matches_tail hpassage.matches_value rfl rfl (by omega)
  | expressionTail => exact clean_of_matches_tail hpassage.matches_term rfl rfl (by omega)
  | assignmentBody => exact clean_assignmentBody hon (by omega)
  | assignmentHead =>
    exact clean_of_read _ (gives_assignmentHead_none hon (by omega))
      fun _ _ h => ⟨_, _, gives_assignmentHead hon (by omega) h⟩
  | printHead =>
    exact clean_of_read _ (gives_printHead_none hon (by omega))
      fun _ _ h => ⟨_, _, gives_printHead hon (by omega) h⟩
  | assignment =>
    exact clean_statement _ rfl hon consumes_readAssignment (by omega)
      (gives_assignmentHead_none hon (by omega)) fun _ _ h => gives_assignmentHead hon (by omega) h
  | print =>
    exact clean_statement _ rfl hon (consumes_readPrint s.context) (by omega)
      (gives_printHead_none hon (by omega)) fun _ _ h => gives_printHead hon (by omega) h
  | program => exact clean_of_gives_some (gives_program_after hon (by omega))

theorem readProgram_rest (context : Option Ref) (src : Text) :
    readProgram context (readProgram context src).2 = ([], (readProgram context src).2) :=
  many_rest (consumes_statement context) src

/-- Every rule of the grammar ends on every input, and where it fails the cells with their values,
the context, the cells under evaluation and the reports are as before. So what a program leaves over
is left over when it is executed in turn, and nothing changes. -/
theorem parse_none_unchanged (s : Sheet) (hon : s.detectsCycles = true) :
    (∀ symbol input, ∃ result t, (grammar effects).parse symbol input s = some (result, t) ∧
      (result = none → t.cells = s.cells ∧ t.context = s.context ∧ t.evaluating = s.evaluating ∧
        t.journal.filter Event.isPrinted = s.journal.filter Event.isPrinted)) ∧
    ∀ src, ∃ rest t u, execute src s = some (⟨rest, true⟩, t) ∧
      execute rest t = some (⟨rest, true⟩, u) ∧ u.cells = t.cells ∧ u.context = t.context ∧
      u.evaluating = t.evaluating ∧
      u.journal.filter Event.isPrinted = t.journal.filter Event.isPrinted := by
  constructor
  · intro symbol input
    obtain ⟨result, t, hrun, ht⟩ := clean_run hon (le_depth effects input) symbol
    refine ⟨result, t, hrun, fun hnone => ?_⟩
    have hafter := ht hnone
    exact ⟨hafter.cells_eq, hafter.context_eq, hafter.evaluating_eq, hafter.filter_journal⟩
  · intro src
    obtain ⟨t, hrun, ht⟩ := execute_eq hon src
    obtain ⟨u, hrun', hu⟩ :=
      execute_eq (ht.detectsCycles_eq.trans hon) (readProgram none src).2
    rw [readProgram_rest] at hrun' hu
    exact ⟨_, t, u, hrun, hrun', hu.cells_eq, hu.context_eq, hu.evaluating_eq, hu.filter_journal⟩

def outdated : Sheet where
  cells := Cells.empty.insert ⟨0, 0⟩ ⟨Text.ofString "2", .int 9⟩
  detectsCycles := true

/-- A reference that leaves the grid refuses the assignment around it, after a cell was addressed.
An empty string does so after a statement that has read a cell. -/
theorem parse_none_unchanged_outdated : outdated.detectsCycles = true ∧
    (∃ t, (grammar effects).parse .assignment (Text.ofString "A1 := r-1c0") outdated =
      some (none, t) ∧ t.cells = outdated.cells) ∧
    ∃ t u, execute (Text.ofString "B1 := A1 A1 := \"\"") outdated =
        some (⟨Text.ofString " A1 := \"\"", true⟩, t) ∧
      execute (Text.ofString " A1 := \"\"") t = some (⟨Text.ofString " A1 := \"\"", true⟩, u) ∧
      u.cells = t.cells := by
  obtain ⟨hparse, hexecute⟩ := parse_none_unchanged outdated rfl
  refine ⟨rfl, ?_, ?_⟩
  · obtain ⟨result, t, hrun, ht⟩ := hparse .assignment (Text.ofString "A1 := r-1c0")
    have hnone : ((grammar effects).parse .assignment (Text.ofString "A1 := r-1c0") outdated).map
        (·.1.isNone) = some true := by decide +kernel
    rw [hrun, Option.map_some, Option.some.injEq, Option.isNone_iff_eq_none] at hnone
    exact ⟨t, hnone ▸ hrun, (ht hnone).1⟩
  · obtain ⟨rest, t, u, hrun, hrun', hcells, -⟩ :=
      hexecute (Text.ofString "B1 := A1 A1 := \"\"")
    have hrest : (execute (Text.ofString "B1 := A1 A1 := \"\"") outdated).map (·.1.rest) =
        some (Text.ofString " A1 := \"\"") := by decide +kernel
    rw [hrun, Option.map_some, Option.some.injEq] at hrest
    exact ⟨t, u, hrest ▸ hrun, hrest ▸ hrun', hcells⟩

end Sheet
end Spreadsheet
