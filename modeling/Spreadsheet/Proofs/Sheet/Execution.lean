import Spreadsheet.Sheet.Program
import Spreadsheet.Proofs.Formula.RoundTrip
import Spreadsheet.Proofs.Sheet.Evaluation

/-! # Executing programs

With cycle detection, executing a source runs the program that is read from it statement by
statement. An assignment computes its expression and stores text and value in the target; a print
statement computes its expression and reports on it, or on the cell if it is a single reference.
Computing an expression refreshes the caches of all that its references lead to.
-/
namespace Spreadsheet

open Formula Grammar

/-- The cell that an expression refers to, if a single reference is all of it. -/
def Formula.Expression.single? : Expression Factor → Option Ref
  | .sum ⟨⟨f, []⟩, []⟩ => f.refs.head?
  | _ => none

theorem Formula.Expression.single?_eq_some_iff {e : Expression Factor} {r : Ref} :
    e.single? = some r ↔ ∃ f, e = .sum ⟨⟨f, []⟩, []⟩ ∧ f.refs.head? = some r := by
  constructor
  · intro h
    unfold Expression.single? at h
    split at h
    · next f => exact ⟨f, rfl, h⟩
    · cases h
  · rintro ⟨f, rfl, hr⟩
    exact hr

theorem Formula.Expression.mem_refs_of_single {e : Expression Factor} {r : Ref}
    (h : e.single? = some r) : r ∈ e.refs := by
  obtain ⟨f, rfl, hr⟩ := single?_eq_some_iff.mp h
  simpa [Expression.refs, Expression.factors, Chain.toList] using List.mem_of_head? hr

theorem Cell.formula?_text {e : Expression Factor} {r : Ref} (he : e.Valid (some r)) (v : Value) :
    (⟨e.text, v⟩ : Cell).formula? r = some e := by
  rw [Cell.formula?, Expression.read_text he]
  rfl

namespace Cells

variable (cells : Cells) (busy : List Ref)

noncomputable def computed (e : Expression Factor) : Cells :=
  cells.refresh busy (cells.Reached busy e.refs)

def report (kind : ReportKind) (e : Expression Factor) : Report :=
  let shown : Cell := match e.single? with
    | some r => cells.shown busy r
    | none => ⟨e.text, e.eval (cells.valueOf busy)⟩
  ⟨kind, e.text, e.single?, match kind with
    | .value => shown.value.text
    | .expression => shown.expression⟩

noncomputable def step : Statement → Cells
  | .assign target e =>
    (cells.computed busy e).insert target.ref ⟨e.text, e.eval (cells.valueOf busy)⟩
  | .print _ e => cells.computed busy e

def stepReports (context : Option Ref) : Statement → List Event
  | .assign _ _ => []
  | .print kind e => [.printed (cells.report busy kind e) context]

variable {cells}

noncomputable def run (busy : List Ref) : List Statement → Cells → Cells
  | [], cells => cells
  | st :: sts, cells => run busy sts (cells.step busy st)

/-- The reports of a program, newest first. -/
noncomputable def runReports (busy : List Ref) (context : Option Ref) :
    List Statement → Cells → List Event
  | [], _ => []
  | st :: sts, cells =>
    runReports busy context sts (cells.step busy st) ++ cells.stepReports busy context st

/-- The parse tree of a program over the values that cells have as it runs. -/
noncomputable def runTree (busy : List Ref) : List Statement → Cells → Tree
  | [], _ => Node.vacuous .program 2 [Node.epsilon .epsilon]
  | st :: sts, cells =>
    Statement.programTree st (st.tree (cells.valueOf busy)) (runTree busy sts (cells.step busy st))

theorem run_append (busy : List Ref) (sts sts' : List Statement) (cells : Cells) :
    run busy (sts ++ sts') cells = run busy sts' (run busy sts cells) := by
  induction sts generalizing cells with
  | nil => rfl
  | cons st sts ih => exact ih _

theorem runReports_append (busy : List Ref) (context : Option Ref)
    (sts sts' : List Statement) (cells : Cells) :
    runReports busy context (sts ++ sts') cells =
      runReports busy context sts' (run busy sts cells) ++
        runReports busy context sts cells := by
  induction sts generalizing cells with
  | nil => simp [runReports, run]
  | cons st sts ih => simp [runReports, run, ih]

theorem runTree_isEpsilon (sts : List Statement) (cells : Cells) :
    (runTree busy sts cells).isEpsilon = sts.isEmpty := by
  cases sts with
  | nil => rfl
  | cons st sts => simp [runTree]

/-- The text of a program is its words without blanks. -/
theorem runTree_text (sts : List Statement) (cells : Cells) :
    (runTree busy sts cells).text = (sts.flatMap Statement.words).flatten := by
  induction sts generalizing cells with
  | nil => rfl
  | cons st sts ih =>
    rw [runTree, Statement.programTree_text, joinedText_cons _ _ (Statement.tree_isEpsilon _ _),
      Statement.tree_text, List.flatMap_cons, List.flatten_append, ← ih (cells.step busy st)]
    congr 1
    cases sts with
    | nil => rfl
    | cons st' sts' =>
      rw [joinedText_cons _ _ (runTree_isEpsilon busy (st' :: sts') _), joinedText_nil,
        List.append_nil]

/-- Reading a cell once more after the expression that it belongs to changes nothing. -/
theorem computed_append {cells : Cells} {e : Expression Factor} {r : Ref} (hr : r ∈ e.refs) :
    cells.refresh busy (cells.Reached busy (e.refs ++ [r])) = cells.computed busy e := by
  refine refresh_congr fun x => ?_
  rw [reached_append, or_iff_left_iff_imp]
  rintro ⟨hx, r', hr', hlead⟩
  exact ⟨hx, r, hr, List.mem_singleton.mp hr' ▸ hlead⟩

theorem hasUnreadable_of_computed {cells : Cells} {e : Expression Factor}
    (h : (cells.computed busy e).HasUnreadable) : cells.HasUnreadable :=
  (sameSources_refresh cells busy _).symm.hasUnreadable h

/-- A valid expression is readable wherever it is stored. -/
theorem hasUnreadable_of_insert {cells : Cells} {r : Ref} {e : Expression Factor} {v : Value}
    (he : e.Valid (some r)) (h : (cells.insert r ⟨e.text, v⟩).HasUnreadable) :
    cells.HasUnreadable := by
  obtain ⟨x, c, hget, hformula⟩ := h
  rw [get?_insert] at hget
  by_cases hx : x = r
  · rw [if_pos hx] at hget
    cases hget
    rw [hx, Cell.formula?_text he] at hformula
    cases hformula
  · rw [if_neg hx] at hget
    exact ⟨x, c, hget, hformula⟩

theorem hasUnreadable_of_step {cells : Cells} {context : Option Ref} {st : Statement}
    (hst : st.Valid context) (h : (cells.step busy st).HasUnreadable) : cells.HasUnreadable := by
  cases st with
  | assign target e => exact hasUnreadable_of_computed busy (hasUnreadable_of_insert hst.2 h)
  | print kind e => exact hasUnreadable_of_computed busy h

end Cells

section Reference

variable {context : Option Ref}

theorem Formula.Written.ne_nil {w t : Text} {ws : List Text} (h : Written (w :: ws) t) : t ≠ [] := by
  rintro rfl
  obtain ⟨rest, htrim, -⟩ := h.exists_trim_eq
  obtain ⟨b, r, rfl, -⟩ := (h.2 w List.mem_cons_self).head
  cases htrim

/-- What stands after the first factor of a sum, if anything does, begins with a mark. -/
theorem Formula.Expression.exists_words_append (f : Factor) (fs : List Factor)
    (ts : List (Chain Factor)) :
    ∃ ws, (Expression.sum ⟨⟨f, fs⟩, ts⟩).words Factor.words = f.words ++ ws ∧
      Begins (fun b => Text.isDigit b = false) ws ∧ (ws = [] ↔ fs = [] ∧ ts = []) := by
  have hbegins : Begins (fun b => Text.isDigit b = false)
      (fs.flatMap (fun g => Text.ofString "*" :: g.words) ++
        (ts.flatMap (fun c => Text.ofString "+" :: c.words (Text.ofString "*") Factor.words) ++
          [])) :=
    begins_flatMap rfl (by decide) (begins_flatMap rfl (by decide) begins_nil)
  refine ⟨_, ?_, hbegins, ?_⟩
  · simp [Expression.words, Chain.words]
  · cases fs <;> cases ts <;> simp

/-- A reference at the start of an expression is all of it exactly if nothing is left. -/
theorem Formula.readReference_text {e : Expression Factor} (he : e.Valid context) :
    ((Factor.readReference context e.text).bind fun p =>
      if p.2 = [] then p.1.refs.head? else none) = e.single? := by
  have hwritten : Written (e.words Factor.words) e.text :=
    written_flatten (Expression.isToken_words he)
  cases e with
  | quoted body =>
    have hbegins : Begins (fun b => Text.isUpper b = false ∧ b ≠ Text.byte 'r')
        ((Expression.quoted body).words Factor.words) := begins_of_head rfl (by decide)
    rw [readReference_none (hwritten.opens hbegins)]
    rfl
  | sum terms =>
    obtain ⟨⟨f, fs⟩, ts⟩ := terms
    have hf : f.Valid context := he _ List.mem_cons_self _ List.mem_cons_self
    obtain ⟨ws, hwords, hbegins, hnil⟩ := Expression.exists_words_append f fs ts
    rw [hwords] at hwritten
    by_cases href : f.IsReference
    · obtain ⟨rest, hread, hrest⟩ := reference_completes context ⟨hf, href⟩ hbegins hwritten
      rw [hread, Option.bind_some]
      cases ws with
      | nil =>
        obtain ⟨rfl, rfl⟩ := hnil.mp rfl
        rw [if_pos hrest.nil_eq]
        rfl
      | cons w ws =>
        have hlonger : ¬ (fs = [] ∧ ts = []) := fun h => List.cons_ne_nil w ws (hnil.mpr h)
        rw [if_neg hrest.ne_nil]
        cases fs with
        | cons g gs => rfl
        | nil =>
          cases ts with
          | cons c cs => rfl
          | nil => exact absurd ⟨rfl, rfl⟩ hlonger
    · cases f with
      | absolute a => exact absurd trivial href
      | relative rows cols r => exact absurd trivial href
      | integer n =>
        have hnone : Factor.readReference context (Expression.sum ⟨⟨.integer n, fs⟩, ts⟩).text =
            none :=
          readReference_none (hwritten.opens (hf.1.begins
            (fun b hb => ⟨isUpper_of_isDigit hb, ne_of_class hb (by decide)⟩) (by decide)))
        rw [hnone]
        cases fs <;> cases ts <;> rfl

end Reference

namespace Sheet

variable {base s t : Sheet} {cells : Cells} {reports : List Event} {e : Expression Factor}
  {input rest : Text} {fuel : Nat}

/-- The sheets that reading cells one after the other goes through. -/
def reading (s : Sheet) (xs : List Ref) (t : Sheet) : Prop :=
  s.After (s.cells.refresh s.evaluating (s.cells.Reached s.evaluating xs)) [] t

theorem reading_nil (s : Sheet) : s.reading [] = s.After s.cells [] := by
  funext t
  rw [reading, Cells.refresh_reached_nil]

/-- An expression is read over the cells of a sheet that detects cycles. -/
theorem passage_effects (hon : base.detectsCycles = true) :
    Passage effects base.context (base.cells.shown base.evaluating) (fun _ => True)
      base.reading where
  context_eq h := h.context_eq
  note message h := h.debug message
  compute := by
    intro xs x _ t ht
    have hsources := base.cells.sameSources_refresh base.evaluating
      (base.cells.Reached base.evaluating xs)
    have hguard : t.Guarded base.evaluating x :=
      .inl ⟨ht.detectsCycles_eq.trans hon, ht.evaluating_eq⟩
    obtain ⟨u, hrun, hu⟩ := compute_of_guarded hguard
    rw [ht.cells_eq] at hrun hu
    rw [Cells.refresh_reached_append] at hu
    refine ⟨u, ?_, ht.trans hsources.symm.hasUnreadable hu⟩
    rw [← hsources.shown_eq] at hrun
    exact hrun

theorem gives_expression (hon : base.detectsCycles = true) (hfuel : 7 + input.length ≤ fuel)
    (h : Expression.read base.context input = some (e, rest)) :
    Gives (base.After base.cells []) ((grammar effects).run fuel .expression input)
      (some (e.tree (base.cells.valueOf base.evaluating), rest))
      (base.After (base.cells.computed base.evaluating e) []) := by
  have hread : Gives (base.reading []) ((grammar effects).run fuel .expression input) _ _ :=
    (passage_effects hon).matches_expression.success hfuel h fun _ _ => trivial
  rw [reading_nil, funext (base.cells.shown_value base.evaluating)] at hread
  exact hread

theorem gives_expression_none (hon : base.detectsCycles = true) (hfuel : 7 + input.length ≤ fuel)
    (h : Expression.read base.context input = none) :
    Gives (base.After base.cells []) ((grammar effects).run fuel .expression input) none
      (base.After base.cells []) := by
  have hread : Gives (base.reading []) ((grammar effects).run fuel .expression input) _ _ :=
    (passage_effects hon).matches_expression.failure hfuel h
  rw [reading_nil] at hread
  exact hread

/-- A text is parsed as a reference exactly if it reads as one. -/
theorem gives_parse_reference (fx : Effects) (base : Sheet) (input : Text) :
    Gives (base.After cells reports) ((grammar fx).parse .cellReference input)
      ((Factor.readReference base.context input).map fun p => (p.1.referenceTree, p.2))
      (base.After cells reports) := by
  have hcontext (u : Sheet) (hu : base.After cells reports u) := hu.context_eq
  have hnote (u : Sheet) (message : Text) (hu : base.After cells reports u) := hu.debug message
  obtain ⟨fuel, hfuel⟩ : ∃ fuel, (grammar fx).depth input = fuel + 4 :=
    ⟨(grammar fx).depth input - 4, by have := le_depth fx input; omega⟩
  rw [Grammar.parse, hfuel]
  cases hread : Factor.readReference base.context input with
  | none => exact gives_reference_none hcontext hnote hread
  | some p => exact gives_reference hcontext hnote hread

theorem gives_referredCell (he : e.Valid base.context) :
    Gives (base.After cells reports) (referredCell e.text) e.single? (base.After cells reports) := by
  rw [referredCell, ← readReference_text he]
  refine (gives_parse_reference .inert base e.text).bind ?_
  cases Factor.readReference base.context e.text with
  | none => exact Gives.pure _
  | some p =>
    obtain ⟨f, r⟩ := p
    cases r with
    | cons b r => exact Gives.pure _
    | nil => cases f <;> exact Gives.pure _

theorem After.print (h : base.After cells reports t) (r : Report) :
    base.After cells (.printed r base.context :: reports) (t.print r) := by
  obtain ⟨xs, hxs, hreports, hstale⟩ := h.journal
  refine ⟨by rw [Sheet.print, h.frame], .printed r base.context :: xs, ?_, ?_, ?_⟩
  · simp [Sheet.print, hxs, h.context_eq]
  · rw [← hreports]
    rfl
  · intro e he
    rcases List.mem_cons.mp he with heq | he
    · cases heq
    · exact hstale e he

theorem gives_announce (hon : base.detectsCycles = true) (he : e.Valid base.context)
    (kind : ReportKind) :
    Gives (base.After (base.cells.computed base.evaluating e) [])
      (announce kind (e.tree (base.cells.valueOf base.evaluating))) ()
      (base.After (base.cells.computed base.evaluating e)
        [.printed (base.cells.report base.evaluating kind e) base.context]) := by
  unfold announce
  rw [Expression.tree_text, Expression.tree_attr]
  refine (gives_referredCell he).bind ?_
  have hprint (u : Sheet) (hu : base.After (base.cells.computed base.evaluating e) [] u) :
      base.After (base.cells.computed base.evaluating e)
        [.printed (base.cells.report base.evaluating kind e) base.context]
        (u.print (base.cells.report base.evaluating kind e)) := hu.print _
  cases hsingle : e.single? with
  | none =>
    refine (Gives.pure _).bind (Gives.modify fun u hu => ?_)
    have hu' := hprint u hu
    simp only [Cells.report, hsingle] at hu' ⊢
    exact hu'
  | some r =>
    have hcompute : Gives (base.After (base.cells.computed base.evaluating e) [])
        (effects.compute r) _ _ := (passage_effects hon).compute trivial
    unfold reading at hcompute
    rw [Cells.computed_append _ (Expression.mem_refs_of_single hsingle)] at hcompute
    refine hcompute.bind (Gives.modify fun u hu => ?_)
    have hu' := hprint u hu
    simp only [Cells.report, hsingle] at hu' ⊢
    exact hu'

section Statements

variable {target : Address} {middle : Text}

theorem assignTarget_branch (target : Address) (mark n : Tree) :
    assignTarget (Node.branch .assignmentBody 0 [target.tree, mark, n] default) =
      (do
        modify fun s : Sheet => s.assign target.ref ⟨n.text, n.attr.value⟩
        pure (some { value := n.attr.value, ref := some target.ref })) := rfl

theorem gives_assignmentBody (hon : base.detectsCycles = true) (hfuel : 8 + input.length ≤ fuel)
    (htarget : Address.read input = some (target, middle))
    (h : following ":=" (Expression.read base.context) middle = some (e, rest)) :
    Gives (base.After base.cells []) ((grammar effects).run fuel .assignmentBody input)
      (some ((Statement.assign target e).tree (base.cells.valueOf base.evaluating), rest))
      (base.After (base.cells.step base.evaluating (.assign target e)) []) := by
  obtain ⟨fuel, rfl⟩ : ∃ m, fuel = m + 3 + 1 := ⟨fuel - 4, by omega⟩
  obtain ⟨t₂, hmark, hread⟩ := Option.bind_eq_some_iff.mp h
  have h₁ := consumes_address _ _ _ htarget
  have h₂ := readMark_length hmark
  refine gives_run_production rfl (gives_choose_first (gives_attempt_action rfl rfl
    (gives_sequence_cons (gives_address htarget) (gives_sequence_cons (gives_mark rfl hmark)
      (gives_sequence_cons (gives_expression hon (by omega) hread) gives_sequence_nil))) ?_))
  rw [assignTarget_branch, Expression.tree_attr, Expression.tree_text]
  exact (Gives.modify fun u hu => (hu.debug _).put).bind (Gives.pure _)

theorem gives_assignmentBody_none (hon : base.detectsCycles = true)
    (hfuel : 8 + input.length ≤ fuel) (htarget : Address.read input = some (target, middle))
    (h : following ":=" (Expression.read base.context) middle = none) :
    Gives (base.After base.cells []) ((grammar effects).run fuel .assignmentBody input) none
      (base.After base.cells []) := by
  obtain ⟨fuel, rfl⟩ : ∃ m, fuel = m + 3 + 1 := ⟨fuel - 4, by omega⟩
  have h₁ := consumes_address _ _ _ htarget
  refine gives_run_production rfl (gives_choose_next (gives_attempt_none
    (gives_sequence_tail_none (gives_address htarget) ?_)) gives_choose_nil)
  cases hmark : readMark ":=" middle with
  | none => exact gives_sequence_head_none (gives_mark_none rfl hmark)
  | some t₂ =>
    have h₂ := readMark_length hmark
    have hread : Expression.read base.context t₂ = none := by
      rw [following, hmark] at h
      exact h
    exact gives_sequence_tail_none (gives_mark rfl hmark)
      (gives_sequence_head_none (gives_expression_none hon (by omega) hread))

theorem After.leave {outer : Sheet} {context : Option Ref}
    (h : ({ outer with context := context } : Sheet).After cells reports t) :
    outer.After cells reports { t with context := outer.context } :=
  ⟨by rw [h.frame], h.journal⟩

/-- A sheet that differs in its journal alone. -/
theorem After.exists_journal (h : s.After s.cells reports t) :
    ∃ journal, t = { s with journal := journal } := ⟨t.journal, h.frame⟩

theorem gives_assignmentHead {st : Statement} (hon : s.detectsCycles = true)
    (hfuel : 9 + input.length ≤ fuel) (h : Statement.readAssignment input = some (st, rest)) :
    Gives (s.After s.cells []) ((grammar effects).run fuel .assignmentHead input)
      (some (st.tree (s.cells.valueOf s.evaluating), rest))
      (s.After (s.cells.step s.evaluating st) (s.cells.stepReports s.evaluating s.context st)) := by
  obtain ⟨target, t₁, t₂, e, htarget, hmark, hread, rfl⟩ := Statement.readAssignment_eq_some h
  obtain ⟨fuel, rfl⟩ : ∃ m, fuel = m + 3 + 1 := ⟨fuel - 4, by omega⟩
  have hfollowing : following ":=" (Expression.read (some target.ref)) t₁ = some (e, rest) := by
    rw [following, hmark]
    exact hread
  refine gives_run_scope rfl (gives_address htarget) fun outer houter => ?_
  obtain ⟨journal, rfl⟩ := houter.exists_journal
  refine ⟨{ s with context := some target.ref, journal := journal }, rfl, ?_⟩
  have hbody : Gives
      (After { s with context := some target.ref, journal := journal } s.cells [])
      ((grammar effects).run (fuel + 3) .assignmentBody input) _ _ :=
    gives_assignmentBody hon (by omega) htarget hfollowing
  refine hbody.weaken (by rintro u rfl; exact After.refl _) fun u hu => ?_
  exact houter.trans id hu.leave

theorem gives_assignmentHead_none (hon : s.detectsCycles = true) (hfuel : 9 + input.length ≤ fuel)
    (h : Statement.readAssignment input = none) :
    Gives (s.After s.cells []) ((grammar effects).run fuel .assignmentHead input) none
      (s.After s.cells []) := by
  obtain ⟨fuel, rfl⟩ : ∃ m, fuel = m + 3 + 1 := ⟨fuel - 4, by omega⟩
  cases htarget : Address.read input with
  | none =>
    exact gives_run_scope_none rfl (gives_address_none (fun _ message hu => hu.debug message) htarget)
  | some p =>
    obtain ⟨target, middle⟩ := p
    have hfollowing : following ":=" (Expression.read (some target.ref)) middle = none := by
      cases hmark : readMark ":=" middle with
      | none => simp [following, hmark]
      | some t₂ =>
        cases hread : Expression.read (some target.ref) t₂ with
        | none => simp [following, hmark, hread]
        | some q => simp [Statement.readAssignment, htarget, hmark, hread] at h
    refine gives_run_scope rfl (gives_address htarget) fun outer houter => ?_
    obtain ⟨journal, rfl⟩ := houter.exists_journal
    refine ⟨{ s with context := some target.ref, journal := journal }, rfl, ?_⟩
    have hbody : Gives
        (After { s with context := some target.ref, journal := journal } s.cells [])
        ((grammar effects).run (fuel + 3) .assignmentBody input) _ _ :=
      gives_assignmentBody_none hon (by omega) htarget hfollowing
    refine hbody.weaken (by rintro u rfl; exact After.refl _) fun u hu => ?_
    exact houter.trans id hu.leave

/-- The words of a print statement of a kind that is not there are no match. -/
theorem gives_print_sequence_none (kind : ReportKind) (hon : s.detectsCycles = true)
    (hfuel : 8 + input.length ≤ fuel) (h : Statement.readPrint s.context kind input = none) :
    Gives (s.After s.cells []) (sequence ((grammar effects).run fuel)
      [Statement.kindSymbol kind, .expression] input) none (s.After s.cells []) := by
  obtain ⟨fuel, rfl⟩ : ∃ m, fuel = m + 1 := ⟨fuel - 1, by omega⟩
  have hrule : rule effects (Statement.kindSymbol kind) = literal kind.keyword := by
    cases kind <;> rfl
  cases hmark : readMark kind.keyword input with
  | none => exact gives_sequence_head_none (gives_mark_none hrule hmark)
  | some middle =>
    have hlength := readMark_length hmark
    have hread : Expression.read s.context middle = none := by
      simpa [Statement.readPrint, following, hmark] using h
    exact gives_sequence_tail_none (gives_mark hrule hmark)
      (gives_sequence_head_none (gives_expression_none hon (by omega) hread))

/-- The alternative of a kind of print statement makes its report. -/
theorem gives_print_attempt {p : Production Symbol Sheet Attribute} {st : Statement}
    (kind : ReportKind) (haction : p.action = some (announceExpression effects))
    (hon : s.detectsCycles = true) (hfuel : 8 + input.length ≤ fuel)
    (h : Statement.readPrint s.context kind input = some (st, rest)) :
    Gives (s.After s.cells []) ((grammar effects).attempt ((grammar effects).run fuel) p .printHead
        (Statement.kindIndex kind) [Statement.kindSymbol kind, .expression] input)
      (some (st.tree (s.cells.valueOf s.evaluating), rest))
      (s.After (s.cells.step s.evaluating st)
        (s.cells.stepReports s.evaluating s.context st)) := by
  obtain ⟨fuel, rfl⟩ : ∃ m, fuel = m + 1 := ⟨fuel - 1, by omega⟩
  obtain ⟨middle, e, hmark, hread, rfl⟩ := Statement.readPrint_eq_some h
  have hrule : rule effects (Statement.kindSymbol kind) = literal kind.keyword := by
    cases kind <;> rfl
  have hlength := readMark_length hmark
  refine gives_attempt_action rfl haction (gives_sequence_cons (gives_mark hrule hmark)
    (gives_sequence_cons (gives_expression hon (by omega) hread) gives_sequence_nil)) ?_
  have hannounce := gives_announce hon (Expression.valid_of_read hread) kind
  cases kind with
  | value => exact hannounce.bind (Gives.pure _)
  | expression => exact hannounce.bind (Gives.pure _)

end Statements

section Programs

theorem gives_printHead {st : Statement} (hon : s.detectsCycles = true)
    (hfuel : 9 + input.length ≤ fuel)
    (h : (Statement.readPrint s.context .value input).or
      (Statement.readPrint s.context .expression input) = some (st, rest)) :
    Gives (s.After s.cells []) ((grammar effects).run fuel .printHead input)
      (some (st.tree (s.cells.valueOf s.evaluating), rest))
      (s.After (s.cells.step s.evaluating st)
        (s.cells.stepReports s.evaluating s.context st)) := by
  obtain ⟨fuel, rfl⟩ : ∃ m, fuel = m + 1 := ⟨fuel - 1, by omega⟩
  rcases Option.or_eq_some_iff.mp h with hvalue | ⟨hvalue, hexpression⟩
  · exact gives_run_production rfl
      (gives_choose_first (gives_print_attempt .value rfl hon (by omega) hvalue))
  · exact gives_run_production rfl (gives_choose_next
      (gives_attempt_none (gives_print_sequence_none .value hon (by omega) hvalue))
      (gives_choose_first (gives_print_attempt .expression rfl hon (by omega) hexpression)))

theorem gives_printHead_none (hon : s.detectsCycles = true) (hfuel : 9 + input.length ≤ fuel)
    (h : (Statement.readPrint s.context .value input).or
      (Statement.readPrint s.context .expression input) = none) :
    Gives (s.After s.cells []) ((grammar effects).run fuel .printHead input) none
      (s.After s.cells []) := by
  obtain ⟨fuel, rfl⟩ : ∃ m, fuel = m + 1 := ⟨fuel - 1, by omega⟩
  obtain ⟨hvalue, hexpression⟩ := Option.or_eq_none_iff.mp h
  exact gives_run_production rfl (gives_choose_next
    (gives_attempt_none (gives_print_sequence_none .value hon (by omega) hvalue))
    (gives_choose_next
      (gives_attempt_none (gives_print_sequence_none .expression hon (by omega) hexpression))
      gives_choose_nil))

/-- A statement that does not start the input leaves nothing behind. -/
theorem gives_statement_none {symbol head : Symbol} {name : String}
    (hrule : rule effects symbol = production name [[head, .program]])
    (hhead : Gives (s.After s.cells []) ((grammar effects).run fuel head input) none
      (s.After s.cells [])) :
    Gives (s.After s.cells []) (sequence ((grammar effects).run (fuel + 1)) [symbol] input) none
      (s.After s.cells []) :=
  gives_sequence_head_none (gives_run_production hrule (gives_choose_next
    (gives_attempt_none (gives_sequence_head_none hhead)) gives_choose_nil))

/-- A statement that has run is followed by the rest of the program. -/
theorem gives_statement {symbol head : Symbol} {name : String} {n m : Tree} {rest' : Text}
    {P Q R : Sheet → Prop} (hrule : rule effects symbol = production name [[head, .program]])
    (hhead : Gives P ((grammar effects).run fuel head input) (some (n, rest)) Q)
    (hprogram : Gives Q ((grammar effects).run fuel .program rest) (some (m, rest')) R) :
    Gives P (sequence ((grammar effects).run (fuel + 1)) [symbol] input)
      (some ([Node.branch symbol 0 [n, m] {}], rest')) R :=
  gives_sequence_cons (gives_run_production hrule (gives_choose_first (gives_attempt_plain rfl rfl
    (gives_sequence_cons hhead (gives_sequence_cons hprogram gives_sequence_nil)))))
    gives_sequence_nil

/-- The program rule runs what `readProgram` reads. The induction is on the statements read. -/
theorem gives_program {context : Option Ref} (hon : s.detectsCycles = true)
    (hcontext : s.context = context) (hfuel : 11 + input.length ≤ fuel) :
    Gives (s.After s.cells []) ((grammar effects).run fuel .program input)
      (some (Cells.runTree s.evaluating (readProgram context input).1 s.cells,
        (readProgram context input).2))
      (s.After (Cells.run s.evaluating (readProgram context input).1 s.cells)
        (Cells.runReports s.evaluating context (readProgram context input).1 s.cells)) := by
  induction input using many_induction (consumes_statement context) generalizing s fuel with
  | stop input hnone =>
    obtain ⟨fuel, rfl⟩ : ∃ m, fuel = m + 1 + 1 := ⟨fuel - 2, by omega⟩
    subst hcontext
    obtain ⟨hassign, hprint⟩ := Option.or_eq_none_iff.mp hnone
    rw [readProgram, many_none hnone]
    exact gives_run_production rfl
      (gives_choose_next (gives_attempt_none (gives_statement_none rfl
        (gives_assignmentHead_none hon (by omega) hassign)))
      (gives_choose_next (gives_attempt_none (gives_statement_none rfl
        (gives_printHead_none hon (by omega) hprint)))
      (gives_choose_first (gives_attempt_vacuous rfl
        (gives_sequence_cons (gives_run_epsilon rfl) gives_sequence_nil)))))
  | step input st rest hread ih =>
    obtain ⟨fuel, rfl⟩ : ∃ m, fuel = m + 1 + 1 := ⟨fuel - 2, by omega⟩
    have hlength := Statement.length_read hread
    have hvalid := Statement.valid_of_read hread
    rw [readProgram, many_some (consumes_statement context) hread]
    -- the rest of the program starts from the sheet that the statement leaves
    have hrest : Gives (s.After (s.cells.step s.evaluating st)
          (s.cells.stepReports s.evaluating context st))
        ((grammar effects).run fuel .program rest)
        (some (Cells.runTree s.evaluating (readProgram context rest).1
          (s.cells.step s.evaluating st), (readProgram context rest).2))
        (s.After (Cells.run s.evaluating (st :: (readProgram context rest).1) s.cells)
          (Cells.runReports s.evaluating context (st :: (readProgram context rest).1) s.cells)) := by
      intro t ht
      obtain ⟨u, hrun, hu⟩ := ih (ht.detectsCycles_eq.trans hon) (ht.context_eq.trans hcontext)
        (show 11 + rest.length ≤ fuel by omega) t (After.refl t)
      rw [ht.cells_eq, ht.evaluating_eq] at hrun hu
      exact ⟨u, hrun, ht.trans (Cells.hasUnreadable_of_step _ hvalid) hu⟩
    subst hcontext
    rcases Option.or_eq_some_iff.mp hread with hassign | ⟨hassign, hprint⟩
    · have hhead := gives_assignmentHead hon (show 9 + input.length ≤ fuel by omega) hassign
      obtain ⟨target, -, -, e, -, -, -, rfl⟩ := Statement.readAssignment_eq_some hassign
      exact gives_run_production rfl (gives_choose_first (gives_attempt_plain rfl rfl
        (gives_statement rfl hhead hrest)))
    · have hhead := gives_printHead hon (show 9 + input.length ≤ fuel by omega) hprint
      obtain ⟨kind, e, rfl⟩ : ∃ kind e, st = .print kind e := by
        rcases Option.or_eq_some_iff.mp hprint with h | ⟨-, h⟩
        · obtain ⟨-, e, -, -, rfl⟩ := Statement.readPrint_eq_some h
          exact ⟨.value, e, rfl⟩
        · obtain ⟨-, e, -, -, rfl⟩ := Statement.readPrint_eq_some h
          exact ⟨.expression, e, rfl⟩
      exact gives_run_production rfl (gives_choose_next (gives_attempt_none
        (gives_statement_none rfl (gives_assignmentHead_none hon (by omega) hassign)))
        (gives_choose_first (gives_attempt_plain rfl rfl (gives_statement rfl hhead hrest))))

/-- A computation in a context of its own, which is left afterwards. -/
theorem inContext_eq {α : Type} {m : Computation Sheet α} {a : α} (context : Sheet → Option Ref)
    (h : m { s with context := context s } = some (a, t)) :
    (do
      let outer ← get
      set { outer with context := context outer }
      let result ← m
      modify fun inner => { inner with context := outer.context }
      pure result : Computation Sheet α) s = some (a, { t with context := s.context }) := by
  change (m { s with context := context s }).bind
    (fun p => some (p.1, { p.2 with context := s.context })) = _
  rw [h]
  rfl

/-- A symbol is parsed in the context given, or else in that of the sheet. -/
theorem parse_of_gives {symbol : Symbol} {src : Text} {result : Option (Match Symbol Attribute)}
    (context : Option Ref)
    (h : Gives (After { s with context := context.or s.context } s.cells [])
      ((grammar effects).parse symbol src) result
      (After { s with context := context.or s.context } cells reports)) :
    ∃ t, parse symbol context src s = some (result, t) ∧ s.After cells reports t := by
  obtain ⟨t, hrun, ht⟩ := h { s with context := context.or s.context } (After.refl _)
  exact ⟨{ t with context := s.context },
    inContext_eq (fun outer => context.or outer.context) hrun, ht.leave⟩

/-- What the parse of a statement gives and leaves behind, if it is accepted. -/
theorem exists_of_parse_statement {symbol : Symbol} {src : Text} {n : Tree} {context : Option Ref}
    {read : Option (Statement × Text)}
    (hsome : ∀ st rest, read = some (st, rest) →
      Gives (After { s with context := context.or s.context } s.cells [])
        ((grammar effects).parse symbol src) (some (st.tree (s.cells.valueOf s.evaluating), rest))
        (After { s with context := context.or s.context } (s.cells.step s.evaluating st)
          (s.cells.stepReports s.evaluating (context.or s.context) st)))
    (hnone : read = none → Gives (After { s with context := context.or s.context } s.cells [])
      ((grammar effects).parse symbol src) none
      (After { s with context := context.or s.context } s.cells []))
    (hparse : parse symbol context src s = some (some (n, rest), t)) :
    ∃ st, read = some (st, rest) ∧ n = st.tree (s.cells.valueOf s.evaluating) ∧
      s.After (s.cells.step s.evaluating st)
        (s.cells.stepReports s.evaluating (context.or s.context) st) t := by
  cases hread : read with
  | none =>
    obtain ⟨u, hu, -⟩ := parse_of_gives context (hnone hread)
    cases hu.symm.trans hparse
  | some p =>
    obtain ⟨st, rest'⟩ := p
    obtain ⟨u, hu, hafter⟩ := parse_of_gives context (hsome st rest' hread)
    cases hu.symm.trans hparse
    exact ⟨st, rfl, rfl, hafter⟩

/-- A text is parsed as an expression exactly if it reads as one, and the match is the tree of
that. -/
theorem exists_parse_expression (hon : s.detectsCycles = true) (context : Option Ref) (text : Text) :
    ∃ t, parse .expression context text s = some ((Expression.read (context.or s.context) text).map
      fun p => (p.1.tree (s.cells.valueOf s.evaluating), p.2), t) := by
  have hfuel : 7 + text.length ≤ (grammar effects).depth text := by
    have := le_depth effects text
    omega
  cases hread : Expression.read (context.or s.context) text with
  | none =>
    obtain ⟨t, hparse, -⟩ := parse_of_gives (s := s) context (gives_expression_none hon hfuel hread)
    exact ⟨t, hparse⟩
  | some p =>
    obtain ⟨t, hparse, -⟩ := parse_of_gives (s := s) context (gives_expression hon hfuel hread)
    exact ⟨t, hparse⟩

/-- The text of a tree is parsed as the same tree again. -/
theorem exists_parse_tree {context : Option Ref} (hon : s.detectsCycles = true)
    (he : e.Valid (context.or s.context)) :
    ∃ t, parse .expression context (e.tree (s.cells.valueOf s.evaluating)).text s =
      some (some (e.tree (s.cells.valueOf s.evaluating), []), t) := by
  obtain ⟨t, ht⟩ := exists_parse_expression hon context e.text
  rw [Expression.read_text he] at ht
  exact ⟨t, by rw [Expression.tree_text, ht]; rfl⟩

/-- In the context of a cell that of the sheet does not matter. -/
theorem parse_expression_eq (hon : s.detectsCycles = true) (r : Ref) (text : Text) :
    ∃ t, parse .expression (some r) text s = some ((Expression.read (some r) text).map
      fun p => (p.1.tree (s.cells.valueOf s.evaluating), p.2), t) :=
  exists_parse_expression hon (some r) text

/-- Running a source with cycle detection: the program that is read from it runs outside of any
context, and the match has the words of the program as its text. -/
theorem matchProgram_eq (hon : s.detectsCycles = true) (src : Text) :
    ∃ t, matchProgram src s =
        some (some (Cells.runTree s.evaluating (readProgram none src).1 s.cells,
          (readProgram none src).2), t) ∧
      s.After (Cells.run s.evaluating (readProgram none src).1 s.cells)
        (Cells.runReports s.evaluating none (readProgram none src).1 s.cells) t := by
  have hprogram : Gives (After { s with context := none } s.cells [])
      ((grammar effects).run ((grammar effects).depth src) .program src) _ _ :=
    gives_program hon rfl (by have := le_depth effects src; omega)
  obtain ⟨t, hrun, ht⟩ := hprogram { s with context := none } (After.refl _)
  exact ⟨{ t with context := s.context }, inContext_eq (fun _ => none) hrun, ht.leave⟩

theorem execute_of_match {src : Text} {n : Tree}
    (h : matchProgram src s = some (some (n, rest), t)) :
    execute src s = some (⟨rest, true⟩,
      t.note .debug (Text.ofString "executed " ++ Quoted.quote n.text)) := by
  simp only [execute, Bind.bind, StateT.bind, h, Option.bind_some]
  rfl

theorem execute_eq (hon : s.detectsCycles = true) (src : Text) :
    ∃ t, execute src s = some (⟨(readProgram none src).2, true⟩, t) ∧
      s.After (Cells.run s.evaluating (readProgram none src).1 s.cells)
        (Cells.runReports s.evaluating none (readProgram none src).1 s.cells) t := by
  obtain ⟨t, hmatch, ht⟩ := matchProgram_eq hon src
  exact ⟨_, execute_of_match hmatch, ht.debug _⟩

/-- Executing a source runs its first statement and then executes the rest. If nothing else is
accepted, it ends where the statement did. -/
theorem execute_statement {src : Text} {st : Statement} (hon : s.detectsCycles = true)
    (hread : Statement.read none src = some (st, rest))
    (hafter : s.After (s.cells.step s.evaluating st) (s.cells.stepReports s.evaluating none st) t) :
    ∃ outcome u u', execute src s = some (outcome, u) ∧ execute rest t = some (outcome, u') ∧
      u = { u' with journal := u.journal } ∧
      u.journal.filter Event.isPrinted = u'.journal.filter Event.isPrinted ∧
      (outcome.rest = rest → u = { t with journal := u.journal }) := by
  obtain ⟨u, hu, huafter⟩ := execute_eq hon src
  obtain ⟨u', hu', huafter'⟩ := execute_eq (hafter.detectsCycles_eq.trans hon) rest
  have hprogram : readProgram none src = (st :: (readProgram none rest).1, (readProgram none rest).2) :=
    many_some (consumes_statement none) hread
  rw [hprogram] at hu huafter
  rw [hafter.cells_eq, hafter.evaluating_eq] at huafter'
  refine ⟨_, u, u', hu, hu', ?_, ?_, fun hrest => ?_⟩
  · rw [huafter.frame, huafter'.frame, hafter.frame]
    rfl
  · rw [huafter.filter_journal, huafter'.filter_journal, hafter.filter_journal, ← List.append_assoc]
    rfl
  · have hnone : readProgram none rest = ([], rest) := by
      have hagain := many_rest (consumes_statement none) rest
      rwa [show (many (Statement.read none) rest).2 = rest from hrest] at hagain
    rw [hnone] at huafter
    rw [huafter.frame, hafter.frame]
    rfl

end Programs

end Sheet

end Spreadsheet
