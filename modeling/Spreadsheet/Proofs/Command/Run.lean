import Spreadsheet.Command.Run
import Spreadsheet.Proofs.Sheet.Listing
import Spreadsheet.Proofs.Viewer.Keeping

/-! # Runs report failures and go on

A run takes the printed reports out of its sheet after each source. Next to it we let one sheet
execute the texts that can be loaded, and nothing else. The run keeps in step with that sheet; every
source that fails adds its one message and does nothing else. What can be loaded is told from the
files and standard input as they were at the start: the place of a source matters only to who gets
standard input.
-/
namespace Spreadsheet

namespace Inputs

/-- Whether a name stands for standard input: it is `-`, or names a file that is standard input. -/
def isStdin (inputs : Inputs) (name : Text) : Bool :=
  match inputs.files name with
  | .ok .stdin => true
  | _ => name = Text.ofString "-"

/-- What is left on standard input. The first name that stands for it takes all of it. -/
def stdinAfter (inputs : Inputs) (before : List Text) : Text :=
  if before.any inputs.isStdin then [] else inputs.stdin

/-- The text under a name that is read after some others. -/
def text? (inputs : Inputs) (before : List Text) (name : Text) : Option Text :=
  if inputs.isStdin name then some (inputs.stdinAfter before)
  else
    match inputs.files name with
    | .ok (.text t) => some t
    | _ => none

/-- The names, each with its text if it has one. -/
def sources (inputs : Inputs) (names : List Text) : List (Text × Option Text) :=
  names.zipIdx.map fun p => (p.1, inputs.text? (names.take p.2) p.1)

theorem stdinAfter_append (inputs : Inputs) (before : List Text) (name : Text) :
    inputs.stdinAfter (before ++ [name]) =
      if inputs.isStdin name then [] else inputs.stdinAfter before := by
  simp only [stdinAfter, List.any_append, List.any_cons, List.any_nil, Bool.or_false]
  cases before.any inputs.isStdin <;> cases inputs.isStdin name <;> rfl

end Inputs

namespace Source

variable (inputs : Inputs)

def loadAll : Inputs → List Text → List (Text × Option Text)
  | _, [] => []
  | inputs, name :: names =>
    (name, (load inputs name).1.toOption) :: loadAll (load inputs name).2 names

/-- Loading a source after some others. -/
theorem load_eq (before : List Text) (name : Text) {left : Inputs}
    (hleft : left = { inputs with stdin := inputs.stdinAfter before }) :
    (load left name).1.toOption = inputs.text? before name ∧
      (load left name).2 = { inputs with stdin := inputs.stdinAfter (before ++ [name]) } := by
  have hstdin : stdinName = Text.ofString "-" := rfl
  rw [load, hstdin, Inputs.stdinAfter_append, Inputs.text?, Inputs.read, hleft]
  by_cases hname : name = Text.ofString "-"
  · have his : inputs.isStdin name = true := by
      unfold Inputs.isStdin
      split <;> simp [hname]
    rw [if_pos hname, if_pos his, if_pos his]
    exact ⟨rfl, rfl⟩
  · rw [if_neg hname, Inputs.isStdin]
    cases inputs.files name with
    | error e => simp [hname, Except.toOption, Except.mapError]
    | ok contents =>
      cases contents <;> simp [hname, Except.toOption, Except.mapError, Inputs.takeStdin]

/-- By induction on the names that are still to be loaded, with all of them and the place kept
apart. -/
theorem loadAll_eq (all names : List Text) (i : Nat) (h : all.drop i = names) :
    loadAll { inputs with stdin := inputs.stdinAfter (all.take i) } names =
      (names.zipIdx i).map fun p => (p.1, inputs.text? (all.take p.2) p.1) := by
  induction names generalizing i with
  | nil => rfl
  | cons name names ih =>
    obtain ⟨htext, hleft⟩ := load_eq inputs (all.take i) name rfl
    have hnext : all.take (i + 1) = all.take i ++ [name] := by
      rw [List.take_add, h]
      rfl
    have hrest : all.drop (i + 1) = names := by
      rw [← List.drop_drop, h]
      rfl
    rw [loadAll, htext, hleft, ← hnext, ih (i + 1) hrest]
    rfl

theorem loadAll_eq_sources (names : List Text) : loadAll inputs names = inputs.sources names :=
  loadAll_eq inputs names names 0 rfl

end Source

/-- Two sheets after the same step, one of which has forgotten its journal, differ in nothing
else. -/
theorem Sheet.After.takeJournal_eq {s t u : Sheet} {cells : Cells} {reports reports' : List Event}
    (h : s.After cells reports t) (h' : s.takeJournal.2.After cells reports' u) :
    u.takeJournal.2 = t.takeJournal.2 := by
  rw [h.frame, h'.frame]
  rfl

theorem Sheet.Quiet.printedText_eq {s : Sheet} (h : s.Quiet) : s.printedText = [] := by
  rw [s.printedText_eq, h.journal]
  rfl

namespace Command

open Sheet

def remainder (o : Outcome) : List Text :=
  if Text.isBlank o.rest then []
  else [Text.ofString "Parsing left remainder [" ++ o.rest.trim ++ Text.ofString "]."]

/-- One message for each source that has no text or is not taken to its end, in order. The outcomes
are those of the sources with a text. -/
def complaints : List (Text × Option Text) → List Outcome → List Text
  | (name, none) :: sources, outcomes =>
    (Text.ofString "Error opening and reading file with filename [" ++ name ++ Text.ofString "].")
      :: complaints sources outcomes
  | (_, some _) :: sources, o :: outcomes => remainder o ++ complaints sources outcomes
  | _, _ => []

/-- Something is said exactly if something is wrong. -/
theorem complaints_ne_nil_iff {sources : List (Text × Option Text)} {outcomes : List Outcome}
    (h : outcomes.length = (sources.filterMap (·.2)).length) :
    complaints sources outcomes ≠ [] ↔
      (∃ p ∈ sources, p.2 = none) ∨ ∃ o ∈ outcomes, ¬ Text.isBlank o.rest := by
  induction sources generalizing outcomes with
  | nil =>
    obtain rfl : outcomes = [] := List.length_eq_zero_iff.mp h
    simp [complaints]
  | cons p sources ih =>
    obtain ⟨name, text⟩ := p
    cases text with
    | none => simp [complaints]
    | some src =>
      cases outcomes with
      | nil => simp at h
      | cons o outcomes =>
        have hlength : outcomes.length = (sources.filterMap (·.2)).length := by simpa using h
        rw [complaints, remainder]
        by_cases hblank : Text.isBlank o.rest
        · simp [hblank, ih hlength]
        · simp [hblank]

def listIf (dump : Bool) : Computation Sheet Text := do
  if dump then return (← Sheet.list {}).2.text else return []

/-- Executes texts one after the other on one sheet. Gives what is left of each, and the listing. -/
def evaluate (texts : List Text) (dump : Bool) : Computation Sheet (List Outcome × Text) := do
  let outcomes ← texts.mapM Sheet.execute
  return (outcomes, ← listIf dump)

/-- How viewing a sheet ends: with what is said about a screen that is not there, and with the sheet
that the user leaves. There is none if the viewer breaks down. -/
inductive Viewed (d : Display) (s : Sheet) : Bool → Option Text → Option Sheet → Prop
  | unasked : Viewed d s false none (some s)
  | uncreated {cause : Text} (h : d.screen = .error (.creating cause)) :
      Viewed d s true (some (Text.ofString "cannot create screen: " ++ cause)) (some s)
  | unstarted {cause : Text} (h : d.screen = .error (.starting cause)) :
      Viewed d s true (some (Text.ofString "cannot init screen: " ++ cause)) (some s)
  | shown {terminal : Terminal} {result : Except IndexFault Unit} {t : Session}
      (h : d.screen = .ok terminal)
      (hrun : Session.interact.run ⟨.ofSheet s d.columnWidth d.showsExpressions, terminal⟩ =
        some (result, t)) :
      Viewed d s true none (result.toOption.map fun _ => t.viewer.sheet.takeJournal.2)

namespace Run

/-- The run goes on with some more messages on its error output, and fails if there are any. -/
structure Tells (r : Run) (messages : List Text) (r' : Run) : Prop where
  stderr : r'.stderr = r.stderr ++ Text.ofLines messages
  failed : r'.failed = (r.failed || !messages.isEmpty)

/-- The run is as far as the sheet, and has listed a text since. -/
structure Follows (r : Run) (s : Sheet) (listed : Text) : Prop where
  detects : s.detectsCycles = true
  sheet : r.sheet = s.takeJournal.2
  stdout : r.stdout.text = s.printedText ++ listed
  room : r.stdout.room = none

variable {r r' r'' : Run} {s t u : Sheet} {listed : Text} {ms ms' : List Text}

theorem tells_nil (hstderr : r'.stderr = r.stderr) (hfailed : r'.failed = r.failed) :
    r.Tells [] r' :=
  ⟨by simp [Text.ofLines, hstderr], by simp [hfailed]⟩

theorem Tells.trans (h : r.Tells ms r') (h' : r'.Tells ms' r'') : r.Tells (ms ++ ms') r'' where
  stderr := by rw [h'.stderr, h.stderr, Text.ofLines_append, List.append_assoc]
  failed := by rw [h'.failed, h.failed]; cases ms <;> simp

/-- The exit code tells whether there was anything to say. -/
theorem Tells.exitCode_eq {sources : List (Text × Option Text)} {outcomes : List Outcome}
    {fault : Option Text} (h : r.Tells (complaints sources outcomes ++ fault.toList) r')
    (hr : r.failed = false) (hlength : outcomes.length = (sources.filterMap (·.2)).length) :
    r'.exitCode = if (∃ p ∈ sources, p.2 = none) ∨
      (∃ o ∈ outcomes, ¬ Text.isBlank o.rest) ∨ fault ≠ none then 1 else 0 := by
  rw [exitCode, h.failed, hr]
  refine if_congr ?_ rfl rfl
  rw [← or_assoc, ← complaints_ne_nil_iff hlength]
  cases fault <;> simp

theorem tells_complain (r : Run) (message : Text) : r.Tells [message] (r.complain message) :=
  ⟨by simp [complain, Text.ofLines], by simp [complain]⟩

theorem text_settle (h : r.stdout.room = none) :
    r.settle.stdout.text = r.stdout.text ++ r.sheet.printedText := by
  change (deliver r.sheet.journal.reverse r.stdout).2.text = _
  rw [deliver_of_room _ h, Output.text_addLines]
  rfl

theorem room_settle (h : r.stdout.room = none) : r.settle.stdout.room = none := by
  change (deliver r.sheet.journal.reverse r.stdout).2.room = _
  rw [deliver_of_room _ h]
  exact h

/-- A step of the sheet, taken by the run as well. Once cells are listed, nothing is printed. -/
theorem Follows.settle {cells : Cells} {reports : List Event} (h : r.Follows s listed)
    (hlisted : listed = [] ∨ reports = []) (ht : s.After cells reports t)
    (hu : s.takeJournal.2.After cells reports u) :
    ({ r with sheet := u }.settle).Follows t listed where
  detects := ht.detectsCycles_eq.trans h.detects
  sheet := ht.takeJournal_eq hu
  stdout := by
    have hroom : ({ r with sheet := u } : Run).stdout.room = none := h.room
    have hnothing : s.takeJournal.2.printedText = [] := rfl
    rw [text_settle hroom, ht.printedText_eq, hu.printedText_eq, hnothing, h.stdout]
    rcases hlisted with rfl | rfl
    · simp
    · simp [Viewer.reportLines, Text.ofLines]
  room := room_settle h.room

theorem Follows.note (h : r.Follows s listed) (level : Log.Level) (message : Text) :
    (r.note level message).Follows s listed :=
  { h with }

theorem Follows.complain (h : r.Follows s listed) (message : Text) :
    (r.complain message).Follows s listed :=
  { h with }

theorem Follows.addLines (h : r.Follows s []) (ts : List Text) :
    ({ r with stdout := r.stdout.addLines ts } : Run).Follows s (Text.ofLines ts) where
  detects := h.detects
  sheet := h.sheet
  stdout := by rw [Output.text_addLines, h.stdout, List.append_nil]
  room := h.room

section Sources

theorem Follows.runText (h : r.Follows s []) (src : Text) :
    ∃ o t r', Sheet.execute src s = some (o, t) ∧ r.runText src = some r' ∧ r'.Follows t [] ∧
      r.Tells (remainder o) r' ∧ r'.inputs = r.inputs := by
  have hon : s.takeJournal.2.detectsCycles = true := h.detects
  obtain ⟨t, hrun, ht⟩ := execute_eq h.detects src
  obtain ⟨u, hrun', hu⟩ := execute_eq hon src
  have hnext := h.settle (.inl rfl) ht hu
  refine ⟨_, t, _, hrun, by rw [Run.runText, h.sheet, hrun']; rfl, ?_⟩
  dsimp only
  rw [Text.isEmpty_trim, remainder]
  split
  · exact ⟨hnext, tells_nil rfl rfl, rfl⟩
  · exact ⟨hnext.complain _, { tells_complain { r with sheet := u }.settle _ with }, rfl⟩

/-- By induction on the sources. One that cannot be loaded leaves the sheet alone. -/
theorem Follows.runSources (h : r.Follows s []) (names : List Text) :
    ∃ outcomes t r', ((Source.loadAll r.inputs names).filterMap (·.2)).mapM Sheet.execute s =
        some (outcomes, t) ∧
      outcomes.length = ((Source.loadAll r.inputs names).filterMap (·.2)).length ∧
      r.runSources names = some r' ∧ r'.Follows t [] ∧
      r.Tells (complaints (Source.loadAll r.inputs names) outcomes) r' := by
  induction names generalizing r s with
  | nil => exact ⟨[], s, r, rfl, rfl, rfl, h, tells_nil rfl rfl⟩
  | cons name names ih =>
    rw [Source.loadAll, Run.runSources, Run.runSource]
    obtain ⟨result, inputs⟩ := Source.load r.inputs name
    have hloaded : ({ r with inputs := inputs } : Run).Follows s [] := { h with }
    cases result with
    | error e =>
      obtain ⟨outcomes, t, r', hrun, hlength, hsources, hr', htells⟩ :=
        ih ((hloaded.note .debug _).complain _)
      refine ⟨outcomes, t, r', hrun, hlength, hsources, hr', ?_⟩
      -- Its message comes first, and the sources after it find the sheet as it was.
      change r.Tells ([_] ++ _) r'
      refine Tells.trans ?_ htells
      exact { tells_complain ({ r with inputs := inputs }.note .debug _) _ with }
    | ok src =>
      obtain ⟨o, t, r', hrun, htext, hr', htells, hinputs⟩ := (hloaded.note .info _).runText src
      obtain ⟨outcomes, u, r'', hrest, hlength, hsources, hr'', htells'⟩ := ih hr'
      rw [hinputs] at hrest hlength htells'
      refine ⟨o :: outcomes, u, r'', mapM_cons_of_some hrun hrest, ?_, ?_, hr'', ?_⟩
      · exact congrArg (· + 1) hlength
      · dsimp only
        rw [htext]
        exact hsources
      · change r.Tells (remainder o ++ _) r''
        refine Tells.trans ?_ htells'
        exact { htells with }

end Sources

theorem Follows.listCells (h : r.Follows s []) (dump : Bool) :
    ∃ listed t r', listIf dump s = some (listed, t) ∧
      (if dump then r.listCells else some r) = some r' ∧ r'.Follows t listed ∧ r.Tells [] r' := by
  cases dump with
  | false => exact ⟨[], s, r, rfl, rfl, h, tells_nil rfl rfl⟩
  | true =>
    have hon : s.takeJournal.2.detectsCycles = true := h.detects
    have hempty : ({} : Output).room = none := rfl
    obtain ⟨t, hlist, ht⟩ := list_of_room h.detects hempty
    obtain ⟨u, hlist', hu⟩ := list_of_room hon h.room
    have hnext := (h.addLines (s.listingLines s.cells.refs)).settle (.inr rfl) ht hu
    refine ⟨_, t, _, ?_, ?_, hnext, tells_nil rfl rfl⟩
    · refine (bind_apply_of_some hlist).trans ?_
      rw [Output.text_addLines]
      rfl
    · rw [if_pos rfl, Run.listCells, h.sheet, hlist']
      rfl

section Viewing

/-- The viewer prints nothing on its sheet, so nothing is written when the run takes it back. -/
theorem Follows.text_settle_of_quiet (h : r.Follows s listed) (ht : t.Quiet) :
    ({ r with sheet := t }.settle).stdout.text = r.stdout.text := by
  have hroom : ({ r with sheet := t } : Run).stdout.room = none := h.room
  rw [text_settle hroom, ht.printedText_eq, List.append_nil]

theorem Follows.exists_viewed (h : r.Follows s listed) (d : Display) :
    ∃ fault final, Viewed d s.takeJournal.2 true fault final ∧ (r.view d).map (·.sheet) = final ∧
      ∀ r', r.view d = some r' → r'.stdout.text = r.stdout.text ∧ r.Tells fault.toList r' := by
  have hquiet : s.takeJournal.2.Quiet := ⟨h.detects, rfl⟩
  cases hscreen : d.screen with
  | error e =>
    have hview : r.view d = some ({ r with sheet := s.takeJournal.2 }.settle.complain e.message) := by
      rw [Run.view, Display.view, hscreen, h.sheet]
      rfl
    refine ⟨some e.message, some s.takeJournal.2, ?_, by rw [hview]; rfl, fun r' hr' => ?_⟩
    · cases e with
      | creating cause => exact .uncreated hscreen
      | starting cause => exact .unstarted hscreen
    · obtain rfl := Option.some.inj (hview.symm.trans hr')
      exact ⟨h.text_settle_of_quiet hquiet,
        { tells_complain { r with sheet := s.takeJournal.2 }.settle e.message with }⟩
  | ok terminal =>
    let start : Session := ⟨.ofSheet s.takeJournal.2 d.columnWidth d.showsExpressions, terminal⟩
    have hstart : start.viewer.sheet.Quiet := by
      rw [Viewer.sheet_ofSheet]
      exact hquiet
    obtain ⟨result, t, hrun, ht⟩ := Session.exists_interact hstart
    have hview : r.view d =
        result.toOption.map fun _ => { r with sheet := t.viewer.sheet }.settle := by
      rw [Run.view, Display.view, hscreen, h.sheet]
      dsimp only
      rw [hrun]
      cases result <;> rfl
    refine ⟨none, _, .shown hscreen hrun, ?_, fun r' hr' => ?_⟩
    · rw [hview, Option.map_map]
      rfl
    · obtain ⟨_, -, rfl⟩ := Option.map_eq_some_iff.mp (hview.symm.trans hr')
      exact ⟨h.text_settle_of_quiet ht, tells_nil rfl rfl⟩

theorem Follows.view (h : r.Follows s listed) (view : Bool) (d : Display) :
    ∃ fault final, Viewed d s.takeJournal.2 view fault final ∧
      (if view then r.view d else some r).map (·.sheet) = final ∧
      ∀ r', (if view then r.view d else some r) = some r' →
        r'.stdout.text = r.stdout.text ∧ r.Tells fault.toList r' := by
  cases view with
  | false =>
    refine ⟨none, _, .unasked, congrArg some h.sheet, ?_⟩
    rintro r' ⟨⟩
    exact ⟨rfl, tells_nil rfl rfl⟩
  | true => exact h.exists_viewed d

end Viewing

theorem finish_eq (r : Run) (dump view : Bool) (d : Display) : r.finish dump view d =
    (if dump then r.listCells else some r).bind fun r => if view then r.view d else some r := by
  cases dump <;> rfl

end Run

/-- A run reports exactly what failed, and goes on. Its exit code is 1 if some source has no text,
or its text leaves more than blanks, or the viewer was asked for and got no screen, and 0 otherwise.
It complains once about each such source, in order, and then about the screen. What it prints, what
it lists and the sheet it leaves, or hands to the viewer, are those of the texts, executed one after
the other on one sheet. The only run that does not come to its end is one with a viewer that breaks
down. -/
theorem run_reports (names : List Text) (dump view : Bool) (inputs : Inputs) (d : Display) :
    ∃ outcomes listed s fault final,
      evaluate ((inputs.sources names).filterMap (·.2)) dump { detectsCycles := true } =
        some ((outcomes, listed), s) ∧
      Viewed d s.takeJournal.2 view fault final ∧
      (run true names dump view inputs {} d).map
          (fun r => (r.exitCode, r.stderr, r.stdout.text, r.sheet)) =
        final.map fun sheet =>
          (if (∃ p ∈ inputs.sources names, p.2 = none) ∨
              (∃ o ∈ outcomes, ¬ Text.isBlank o.rest) ∨ fault ≠ none then 1 else 0,
            Text.ofLines (complaints (inputs.sources names) outcomes ++ fault.toList),
            s.printedText ++ listed,
            sheet) := by
  let start : Run := { sheet := { detectsCycles := true }, inputs }
  have hstart : start.Follows { detectsCycles := true } [] := ⟨rfl, rfl, rfl, rfl⟩
  obtain ⟨outcomes, s, r, hexecute, hlength, hsources, hr, htells⟩ := hstart.runSources names
  rw [Source.loadAll_eq_sources] at hexecute hlength htells
  obtain ⟨listed, t, r', hlist, hdump, hr', htells'⟩ := hr.listCells dump
  obtain ⟨fault, final, hviewed, hfinal, hview⟩ := hr'.view view d
  have hrun : run true names dump view inputs {} d = if view then r'.view d else some r' := by
    change ((start.runSources names).bind fun r => r.finish dump view d) = _
    rw [hsources, Option.bind_some, Run.finish_eq, hdump, Option.bind_some]
  refine ⟨outcomes, listed, t, fault, final, ?_, hviewed, ?_⟩
  · exact (bind_apply_of_some hexecute).trans (bind_apply_of_some hlist)
  · rw [hrun, ← hfinal, Option.map_map]
    refine Option.map_congr fun r'' hlast => ?_
    obtain ⟨htext, htells''⟩ := hview r'' hlast
    have hall := (htells.trans htells').trans htells''
    rw [List.append_nil] at hall
    rw [hall.exitCode_eq rfl hlength, hall.stderr, htext, hr'.stdout]
    rfl

end Command
end Spreadsheet
