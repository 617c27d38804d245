import Spreadsheet.Proofs.Formula.Layout
import Spreadsheet.Proofs.Sheet.Execution

/-! # Assignments in another order

Each assignment is evaluated at once, over the cells that are there at that time, so the cached
values depend on the order of the assignments. The sources of the cells do not: a cell that is
assigned has the text of the last assignment to it, and the others are as before. What a read shows
depends on the sources alone.
-/
namespace Spreadsheet

open Formula Grammar

section Sources

/-- The cell that a statement assigns and the text that it stores there. -/
def Formula.Statement.assignment? : Statement → Option (Ref × Text)
  | .assign target e => some (target.ref, e.text)
  | .print _ _ => none

namespace Cells

variable {cells : Cells} {busy : List Ref} {context : Option Ref}

theorem source_get?_computed (e : Expression Factor) (r : Ref) :
    ((cells.computed busy e).get? r).map (Cell.source r) = (cells.get? r).map (Cell.source r) :=
  (sameSources_refresh cells busy _ r).symm

/-- A statement gives the cell that it assigns a new source, and keeps the others. -/
theorem source_get?_step {st : Statement} (hst : st.Valid context) (r : Ref) :
    ((cells.step busy st).get? r).map (Cell.source r) =
      (((st.assignment?.toList.lookup r).map fun text => ⟨text, .empty⟩).or
        ((cells.get? r).map (Cell.source r))) := by
  cases st with
  | print kind e => exact source_get?_computed e r
  | assign target e =>
    rw [step, get?_insert]
    by_cases hr : r = target.ref
    · subst hr
      have hformula : (Cell.mk e.text (e.eval (cells.valueOf busy))).formula? target.ref =
          some e := by
        rw [Cell.formula?, Expression.read_text hst.2]
        rfl
      simp [Statement.assignment?, Cell.source, hformula]
    · have hlookup : [(target.ref, e.text)].lookup r = none := by simp [hr]
      rw [if_neg hr, source_get?_computed, Statement.assignment?, Option.toList_some, hlookup]
      rfl

/-- A program gives every cell that it assigns the text of the last assignment. -/
theorem source_get?_run {sts : List Statement} (hsts : ∀ st ∈ sts, st.Valid context) (r : Ref) :
    ((run busy sts cells).get? r).map (Cell.source r) =
      ((((sts.filterMap Statement.assignment?).reverse.lookup r).map fun text => ⟨text, .empty⟩).or
        ((cells.get? r).map (Cell.source r))) := by
  induction sts generalizing cells with
  | nil => rfl
  | cons st sts ih =>
    rw [run, ih fun x hx => hsts x (List.mem_cons_of_mem st hx),
      source_get?_step (hsts st List.mem_cons_self), ← Option.or_assoc]
    have hfilter : (st :: sts).filterMap Statement.assignment? =
        st.assignment?.toList ++ sts.filterMap Statement.assignment? := by
      rw [List.filterMap_cons]
      cases st.assignment? <;> rfl
    have hsingle : st.assignment?.toList.reverse = st.assignment?.toList := by
      cases st.assignment? <;> rfl
    rw [hfilter, List.reverse_append, List.lookup_append, hsingle, Option.map_or]

theorem sameSources_run {sts sts' : List Statement} (hsts : ∀ st ∈ sts, st.Valid context)
    (hsts' : ∀ st ∈ sts', st.Valid context)
    (h : ∀ r, (sts.filterMap Statement.assignment?).reverse.lookup r =
      (sts'.filterMap Statement.assignment?).reverse.lookup r) :
    (run busy sts cells).SameSources (run busy sts' cells) := by
  intro r
  rw [source_get?_run hsts, source_get?_run hsts', h]

end Cells

end Sources

namespace Sheet

open Text

/-- The cell that a source assigns and the text that it stores there, if the source is one
assignment with nothing but blanks behind it. -/
def assignment? (src : Text) : Option (Ref × Text) :=
  match parse .assignmentHead none src { detectsCycles := true } with
  | some (some (n, rest), _) => if isBlank rest then n.attr.ref.map (·, n.childText 2) else none
  | _ => none

def lastAssigned (srcs : List Text) (r : Ref) : Option Text :=
  (srcs.filterMap assignment?).reverse.lookup r

section Order

variable {ps qs : List Text}

theorem lastAssigned_append (ps qs : List Text) (r : Ref) :
    lastAssigned (ps ++ qs) r = (lastAssigned qs r).or (lastAssigned ps r) := by
  rw [lastAssigned, List.filterMap_append, List.reverse_append, List.lookup_append]
  rfl

/-- An assignment that is overwritten later does not count. -/
theorem lastAssigned_overwritten {p : Text} {r : Ref} {text : Text}
    (hp : assignment? p = some (r, text)) (hqs : (lastAssigned qs r).isSome) (x : Ref) :
    lastAssigned (ps ++ p :: qs) x = lastAssigned (ps ++ qs) x := by
  have hsplit : ps ++ p :: qs = ps ++ [p] ++ qs := by simp
  rw [hsplit, lastAssigned_append, lastAssigned_append, lastAssigned_append]
  by_cases hx : x = r
  · obtain ⟨v, hv⟩ := Option.isSome_iff_exists.mp hqs
    rw [hx, hv]
    rfl
  · have hnone : lastAssigned [p] x = none := by simp [lastAssigned, hp, hx]
    rw [hnone, Option.none_or]

theorem lookup_eq_of_perm {l l' : List (Ref × Text)} (h : l.Perm l') (hl : (l.map (·.1)).Nodup)
    (r : Ref) : l.lookup r = l'.lookup r := by
  induction h with
  | nil => rfl
  | cons a _ ih =>
    rw [List.lookup_cons, List.lookup_cons, ih (List.nodup_cons.mp hl).2]
  | swap a b l =>
    have hne : b.1 ≠ a.1 := fun heq => (List.nodup_cons.mp hl).1 (by simp [heq])
    obtain ⟨x, v⟩ := a
    obtain ⟨y, w⟩ := b
    by_cases hx : r = x
    · subst hx
      have hy : (r == y) = false := by simpa using Ne.symm hne
      simp [List.lookup_cons, hy]
    · have hx' : (r == x) = false := by simpa using hx
      simp [List.lookup_cons, hx']
  | trans h _ ih ih' => rw [ih hl, ih' ((h.map _).nodup hl)]

/-- The order of assignments to different cells does not count. -/
theorem lastAssigned_perm (h : (ps.filterMap assignment?).Perm (qs.filterMap assignment?))
    (hps : ((ps.filterMap assignment?).map (·.1)).Nodup) (r : Ref) :
    lastAssigned ps r = lastAssigned qs r := by
  refine lookup_eq_of_perm ?_ ?_ r
  · exact (List.reverse_perm _).trans (h.trans (List.reverse_perm _).symm)
  · rw [List.map_reverse, List.nodup_reverse]
    exact hps

end Order

theorem assignment?_eq_some {src text : Text} {r : Ref} (h : assignment? src = some (r, text)) :
    ∃ st rest, Statement.readAssignment src = some (st, rest) ∧ isBlank rest ∧
      st.assignment? = some (r, text) := by
  have hfuel : 9 + src.length ≤ (grammar effects).depth src := by
    have := le_depth effects src
    omega
  cases hread : Statement.readAssignment src with
  | none =>
    obtain ⟨t, hparse, -⟩ := parse_of_gives (s := { detectsCycles := true }) none
      (gives_assignmentHead_none rfl hfuel hread)
    rw [assignment?, hparse] at h
    cases h
  | some p =>
    obtain ⟨st, rest⟩ := p
    obtain ⟨t, hparse, -⟩ := parse_of_gives (s := { detectsCycles := true }) none
      (gives_assignmentHead rfl hfuel hread)
    obtain ⟨target, -, -, e, -, -, -, rfl⟩ := Statement.readAssignment_eq_some hread
    rw [assignment?, hparse] at h
    simp only at h
    split at h
    · next hblank =>
      refine ⟨_, rest, rfl, hblank, h ▸ ?_⟩
      simp [Statement.assignment?, Statement.tree, Node.branch, Node.childText]
    · cases h

def statements (srcs : List Text) : List Statement :=
  srcs.flatMap fun src => (readProgram none src).1

theorem valid_of_statements (srcs : List Text) : ∀ st ∈ statements srcs, st.Valid none := by
  intro st hst
  obtain ⟨src, -, hst⟩ := List.mem_flatMap.mp hst
  exact valid_of_readProgram none src st hst

/-- A source that is one assignment reads as its statement, and the words of that are all that
stands in it. -/
theorem readProgram_of_assignment {src : Text} {a : Ref × Text} (h : assignment? src = some a) :
    ∃ st rest, readProgram none src = ([st], rest) ∧ isBlank rest ∧ st.assignment? = some a ∧
      Takes st.words src [] := by
  obtain ⟨st, rest, hread, hblank, hassignment⟩ := assignment?_eq_some h
  have hgap := isGap_of_isBlank hblank
  have hstatement : Statement.read none src = some (st, rest) := by
    rw [Statement.read, hread, Option.some_or]
  refine ⟨st, rest, ?_, hblank, hassignment, ?_⟩
  · rw [readProgram, many_some (consumes_statement none) hstatement,
      many_none (Statement.read_gap hgap)]
  · obtain ⟨t, w, hsrc, ht, hw⟩ := spells_readAssignment hread
    exact ⟨t, rest ++ w, hsrc, ht, hgap.append hw⟩

theorem statements_cons (src : Text) (srcs : List Text) :
    statements (src :: srcs) = (readProgram none src).1 ++ statements srcs :=
  List.flatMap_cons

theorem filterMap_statements {srcs : List Text} (h : ∀ src ∈ srcs, (assignment? src).isSome) :
    (statements srcs).filterMap Statement.assignment? = srcs.filterMap assignment? := by
  induction srcs with
  | nil => rfl
  | cons src srcs ih =>
    obtain ⟨a, ha⟩ := Option.isSome_iff_exists.mp (h src List.mem_cons_self)
    obtain ⟨st, rest, hread, -, hst, -⟩ := readProgram_of_assignment ha
    rw [statements_cons, hread, List.singleton_append, List.filterMap_cons_some hst,
      List.filterMap_cons_some ha, ih fun x hx => h x (List.mem_cons_of_mem src hx)]

/-- Sources that are executed one after the other run their statements in order. -/
theorem mapM_execute_eq {s : Sheet} (hon : s.detectsCycles = true) (srcs : List Text) :
    ∃ t, srcs.mapM execute s = some (srcs.map fun src => ⟨(readProgram none src).2, true⟩, t) ∧
      t = { s with cells := Cells.run s.evaluating (statements srcs) s.cells,
                   journal := t.journal } := by
  induction srcs generalizing s with
  | nil => exact ⟨s, rfl, rfl⟩
  | cons src srcs ih =>
    obtain ⟨t, hrun, ht⟩ := execute_eq hon src
    obtain ⟨u, hrest, hu⟩ := ih (ht.detectsCycles_eq.trans hon)
    refine ⟨u, mapM_cons_of_some hrun hrest, ?_⟩
    rw [hu, statements_cons, Cells.run_append, ht.frame]

/-- The words of the statements stand in the joined sources as they stand in each. -/
theorem takes_joinWith {srcs : List Text} {separator : Text} (hsep : IsGap separator)
    (h : ∀ src ∈ srcs, (assignment? src).isSome) :
    Takes ((statements srcs).flatMap Statement.words) (joinWith separator srcs) [] := by
  induction srcs with
  | nil => exact .nil []
  | cons src srcs ih =>
    obtain ⟨a, ha⟩ := Option.isSome_iff_exists.mp (h src List.mem_cons_self)
    obtain ⟨st, rest, hread, -, -, htakes⟩ := readProgram_of_assignment ha
    rw [statements_cons, hread, List.singleton_append, List.flatMap_cons]
    exact htakes.joinWith_cons hsep (ih fun x hx => h x (List.mem_cons_of_mem src hx))

/-- Executing the sources one after the other leads from one sheet to the other, and so does
executing them as one, with any blanks between them, but for the journal. All of them are taken to
the end. -/
structure Executes (srcs : List Text) (s t : Sheet) : Prop where
  each : ∃ outcomes, srcs.mapM execute s = some (outcomes, t) ∧
    ∀ o ∈ outcomes, o.accepted = true ∧ isBlank o.rest
  joined : ∀ separator, isBlank separator → ∃ outcome u,
    execute (joinWith separator srcs) s = some (outcome, u) ∧ outcome.accepted = true ∧
      isBlank outcome.rest ∧ { u with journal := t.journal } = t

theorem exists_executes {s : Sheet} {srcs : List Text} (hon : s.detectsCycles = true)
    (h : ∀ src ∈ srcs, (assignment? src).isSome) :
    ∃ t, Executes srcs s t ∧
      t = { s with cells := Cells.run s.evaluating (statements srcs) s.cells,
                   journal := t.journal } := by
  obtain ⟨t, hrun, ht⟩ := mapM_execute_eq hon srcs
  refine ⟨t, ⟨⟨_, hrun, fun o ho => ?_⟩, fun separator hsep => ?_⟩, ht⟩
  · obtain ⟨src, hsrc, rfl⟩ := List.mem_map.mp ho
    obtain ⟨a, ha⟩ := Option.isSome_iff_exists.mp (h src hsrc)
    obtain ⟨st, rest, hread, hblank, -⟩ := readProgram_of_assignment ha
    exact ⟨rfl, by rw [hread]; exact hblank⟩
  · obtain ⟨gap, hread, hgap⟩ := exists_readProgram_eq (valid_of_statements srcs)
      (takes_joinWith (isGap_of_isBlank hsep) h)
    obtain ⟨u, hu, hafter⟩ := execute_eq hon (joinWith separator srcs)
    rw [hread] at hu hafter
    exact ⟨_, u, hu, rfl, hgap.isBlank, by rw [ht, hafter.frame]⟩

/-- Only the last assignment to each cell matters. Two lists of assignments, whose last assignments
to every cell are the same, store the same cells with the same texts, and every read shows the same
afterwards. -/
theorem execute_of_lastAssigned_eq {s : Sheet} {ps qs : List Text} (hon : s.detectsCycles = true)
    (hps : ∀ p ∈ ps, (assignment? p).isSome) (hqs : ∀ q ∈ qs, (assignment? q).isSome)
    (hlast : ∀ r, lastAssigned ps r = lastAssigned qs r) :
    ∃ t u, Executes ps s t ∧ Executes qs s u ∧
      (∀ r, (t.get? r).map (·.expression) = (u.get? r).map (·.expression)) ∧
      ∀ r, ∃ c t' u', compute r t = some (c, t') ∧ compute r u = some (c, u') := by
  obtain ⟨t, hpst, ht⟩ := exists_executes hon hps
  obtain ⟨u, hqsu, hu⟩ := exists_executes hon hqs
  have hsources : t.cells.SameSources u.cells := by
    rw [ht, hu]
    refine Cells.sameSources_run (valid_of_statements ps) (valid_of_statements qs) fun r => ?_
    rw [filterMap_statements hps, filterMap_statements hqs]
    exact hlast r
  refine ⟨t, u, hpst, hqsu, hsources.expression_eq, fun r => ?_⟩
  obtain ⟨t', ht', -⟩ := compute_of_detects (s := t) (by rw [ht]; exact hon) r
  obtain ⟨u', hu', -⟩ := compute_of_detects (s := u) (by rw [hu]; exact hon) r
  have hbusy : t.evaluating = u.evaluating := by rw [ht, hu]
  rw [hsources.shown_eq, hbusy] at ht'
  exact ⟨_, t', u', ht', hu'⟩

/-- The first list assigns `A1` before the cell that it refers to, and that cell twice. The caches
differ, and the reads do not. -/
theorem execute_of_lastAssigned_eq_sum : ∃ t u : Sheet,
    Executes (["A1 := B1 + 1", "B1 := 5", "B1 := 2"].map ofString) { detectsCycles := true } t ∧
    Executes (["B1:=2 ", "A1:=B1+1"].map ofString) { detectsCycles := true } u ∧
    t.get? ⟨0, 0⟩ = some ⟨ofString "B1+1", .empty⟩ ∧
    u.get? ⟨0, 0⟩ = some ⟨ofString "B1+1", .int 3⟩ ∧
    (∀ r, (t.get? r).map (·.expression) = (u.get? r).map (·.expression)) ∧
    ∀ r, ∃ c t' u', compute r t = some (c, t') ∧ compute r u = some (c, u') := by
  have hlast (r : Ref) : lastAssigned (["A1 := B1 + 1", "B1 := 5", "B1 := 2"].map ofString) r =
      lastAssigned (["B1:=2 ", "A1:=B1+1"].map ofString) r := by
    have hfive : assignment? (ofString "B1 := 5") = some (⟨0, 1⟩, ofString "5") := by
      decide +kernel
    have hdrop : lastAssigned
        ([ofString "A1 := B1 + 1"] ++ ofString "B1 := 5" :: [ofString "B1 := 2"]) r =
        lastAssigned ([ofString "A1 := B1 + 1"] ++ [ofString "B1 := 2"]) r :=
      lastAssigned_overwritten hfive (by decide +kernel) r
    exact hdrop.trans (lastAssigned_perm (by decide +kernel) (by decide +kernel) r)
  obtain ⟨t, u, ht, hu, hsame⟩ := execute_of_lastAssigned_eq (s := { detectsCycles := true })
    rfl (by decide +kernel) (by decide +kernel) hlast
  refine ⟨t, u, ht, hu, ?_, ?_, hsame⟩
  · have hget : (((["A1 := B1 + 1", "B1 := 5", "B1 := 2"].map ofString).mapM execute
        { detectsCycles := true }).bind fun p => p.2.get? ⟨0, 0⟩) =
        some ⟨ofString "B1+1", .empty⟩ := by decide +kernel
    obtain ⟨outcomes, hrun, -⟩ := ht.each
    rw [hrun] at hget
    exact hget
  · have hget : (((["B1:=2 ", "A1:=B1+1"].map ofString).mapM execute
        { detectsCycles := true }).bind fun p => p.2.get? ⟨0, 0⟩) =
        some ⟨ofString "B1+1", .int 3⟩ := by decide +kernel
    obtain ⟨outcomes, hrun, -⟩ := hu.each
    rw [hrun] at hget
    exact hget

end Sheet

end Spreadsheet
