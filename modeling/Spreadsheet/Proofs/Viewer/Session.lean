import Spreadsheet.Proofs.Sheet.Execution
import Spreadsheet.Proofs.Viewer.Grid

/-! # Sessions stay in the grid

Drawing computes cells, so it writes caches; but it adds no cell and moves nothing. Only a key can
take a viewer elsewhere. What each action of a session needs and keeps is said once, as a triple,
and whatever happens to a session is then a step of one relation.
-/
namespace Spreadsheet

/-- From every environment with the property the computation ends, and leaves one with the
property. -/
def Keeps {E α : Type} (I : E → Prop) (m : Computation E α) : Prop :=
  ∀ s, I s → ∃ a t, m s = some (a, t) ∧ I t

namespace Keeps

variable {E α β : Type} {I : E → Prop}

theorem pure (a : α) : Keeps I (pure a : Computation E α) := fun s hs => ⟨a, s, rfl, hs⟩

theorem get : Keeps I (get : Computation E E) := fun s hs => ⟨s, s, rfl, hs⟩

theorem bind {m : Computation E α} {k : α → Computation E β} (hm : Keeps I m)
    (hk : ∀ a, Keeps I (k a)) : Keeps I (m >>= k) := by
  intro s hs
  obtain ⟨a, t, ha, ht⟩ := hm s hs
  obtain ⟨b, u, hb, hu⟩ := hk a t ht
  exact ⟨b, u, (bind_apply_of_some ha).trans hb, hu⟩

end Keeps

namespace Viewer

/-- A viewer in its grid, and far from where the grid ends. -/
def Steady (v : Viewer) : Prop := v.Sound ∧ v.Small

variable {v : Viewer}

/-- Caches do not matter to the grid. -/
theorem Steady.withSheet (h : v.Steady) {sheet : Sheet}
    (hrefs : sheet.cells.refs = v.sheet.cells.refs) (hon : sheet.detectsCycles = true) :
    Steady { v with sheet } :=
  ⟨{ h.1 with detects := hon, cells := fun r hr => h.1.cells r (hrefs ▸ hr) },
    { h.2 with cells := fun r hr => h.2.cells r (hrefs ▸ hr) }⟩

section Drawing

theorem Steady.exists_compute (h : v.Steady) (r : Ref) :
    ∃ c t, v.compute r = some (c, t) ∧ t.Steady := by
  obtain ⟨sheet, hcompute, hafter⟩ := Sheet.compute_of_detects h.1.detects r
  refine ⟨_, _, by rw [compute, hcompute]; rfl, h.withSheet ?_ ?_⟩
  · rw [hafter.cells_eq, Cells.refs_refresh]
  · rw [hafter.detectsCycles_eq]
    exact h.1.detects

-- Whatever shows is read from the sheet, so drawing keeps what every read keeps.
variable {I : Viewer → Prop} (hread : ∀ {v}, I v → ∀ r, ∃ c t, v.compute r = some (c, t) ∧ I t)

include hread

theorem keeps_shownText (r : Ref) : Keeps I (shownText r) := by
  intro v hv
  unfold shownText
  split
  · exact ⟨_, v, rfl, hv⟩
  · obtain ⟨c, t, hc, ht⟩ := hread hv r
    exact ⟨_, t, by rw [hc]; rfl, ht⟩

theorem keeps_statusText : Keeps I statusText := by
  intro v hv
  unfold statusText
  dsimp only
  split
  · exact ⟨_, v, rfl, hv⟩
  · obtain ⟨c, t, hc, ht⟩ := hread hv v.cursor
    exact ⟨_, t, by rw [hc]; rfl, ht⟩

theorem keeps_drawCells (row y : Int64) (slots : List Slot) (c : Canvas) :
    Keeps I (drawCells row y slots c) := by
  induction slots generalizing c with
  | nil => exact .pure c
  | cons slot slots ih =>
    exact (keeps_shownText hread _).bind fun _ => Keeps.get.bind fun _ => ih _

theorem keeps_drawRows (slots : List Slot) (row y : Int64) (count : Nat) (c : Canvas) :
    Keeps I (drawRows slots row y count c) := by
  induction count generalizing row y c with
  | zero => exact .pure c
  | succ count ih =>
    exact Keeps.get.bind fun _ => (keeps_drawCells hread _ _ _ _).bind fun _ => ih _ _ _

theorem keeps_picture (slots : List Slot) (width height : Int64) :
    Keeps I (picture slots width height) :=
  Keeps.get.bind fun _ => (keeps_drawRows hread _ _ _ _ _).bind fun _ =>
    (keeps_statusText hread).bind fun _ => .pure _

end Drawing

/-- A statement may store cells anywhere; the grid then grows to cover them. -/
theorem Sound.exists_runStatement (h : v.Sound) (src : Text) :
    ∃ t, runStatement src v = some ((), t) ∧ (t.Small → t.Sound) := by
  have hon : Sheet.detectsCycles { v.sheet with journal := [] } = true := h.detects
  obtain ⟨sheet, hexecute, hafter⟩ := Sheet.execute_eq hon src
  refine ⟨_, by rw [runStatement, hexecute]; rfl, fun hsmall => ?_⟩
  have hcells := hsmall.cells
  rw [sheet_coverSheet] at hcells
  refine h.coverSheet ?_ (fun r hr => (hcells r hr).1) _
  exact hafter.detectsCycles_eq.trans hon

end Viewer

/-- The screen never gets higher than `2 ^ 31` lines. -/
def Input.Bounded : Input → Prop
  | .resize _ height => 0 ≤ height.toInt ∧ height.toInt ≤ 2 ^ 31
  | .key _ | .other => True

instance : DecidablePred Input.Bounded
  | .resize _ height => inferInstanceAs (Decidable (0 ≤ height.toInt ∧ height.toInt ≤ 2 ^ 31))
  | .key _ | .other => inferInstanceAs (Decidable True)

structure Terminal.Bounded (t : Terminal) : Prop where
  height : 0 ≤ t.height.toInt ∧ t.height.toInt ≤ 2 ^ 31
  pending : ∀ input ∈ t.pending, input.Bounded

/-- From a session the action succeeds, and its result and the session it leaves have the
property. -/
def Succeeds {α : Type} (m : Interaction α) (s : Session) (Q : α → Session → Prop) : Prop :=
  ∃ a t, m.run s = some (.ok a, t) ∧ Q a t

namespace Succeeds

open Session

variable {α β : Type} {s : Session} {Q : α → Session → Prop} {R : β → Session → Prop}

theorem pure {a : α} (h : Q a s) : Succeeds (pure a) s Q := ⟨a, s, rfl, h⟩

theorem bind {m : Interaction α} {k : α → Interaction β} (hm : Succeeds m s Q)
    (hk : ∀ a t, Q a t → Succeeds (k a) t R) : Succeeds (m >>= k) s R := by
  obtain ⟨a, t, ha, ht⟩ := hm
  obtain ⟨b, u, hb, hu⟩ := hk a t ht
  exact ⟨b, u, (bind_apply_of_some (m := m.run) ha).trans hb, hu⟩

theorem getViewer {k : Viewer → Interaction β} (h : Succeeds (k s.viewer) s R) :
    Succeeds (getViewer >>= k) s R := h

theorem getTerminal {k : Terminal → Interaction β} (h : Succeeds (k s.terminal) s R) :
    Succeeds (getTerminal >>= k) s R := h

theorem orFail {e : Except IndexFault α} {a : α} {k : α → Interaction β} (he : e = .ok a)
    (h : Succeeds (k a) s R) : Succeeds (orFail e >>= k) s R := by
  subst he
  exact h

theorem update {f : Viewer → Viewer} {Q : Unit → Session → Prop}
    (h : Q () { s with viewer := f s.viewer }) : Succeeds (update f) s Q := ⟨(), _, rfl, h⟩

theorem updateTerminal {f : Terminal → Terminal} {Q : Unit → Session → Prop}
    (h : Q () { s with terminal := f s.terminal }) : Succeeds (updateTerminal f) s Q :=
  ⟨(), _, rfl, h⟩

theorem attempt {f : Viewer → Except IndexFault Viewer} {v : Viewer} {Q : Unit → Session → Prop}
    (hf : f s.viewer = .ok v) (h : Q () { s with viewer := v }) : Succeeds (attempt f) s Q :=
  .getViewer (.orFail hf (.update h))

theorem onViewer {c : Computation Viewer α} {a : α} {v : Viewer} (hc : c s.viewer = some (a, v))
    (h : Q a { s with viewer := v }) : Succeeds (onViewer c) s Q := by
  refine ⟨a, { s with viewer := v }, ?_, h⟩
  change (c s.viewer).map _ = _
  rw [hc]
  rfl

end Succeeds

namespace Session

structure Steady (s : Session) : Prop where
  viewer : s.viewer.Steady
  terminal : s.terminal.Bounded

/-- A session after something happened to it: where the grid is not too large, the viewer is in
it. -/
structure Settled (s : Session) : Prop where
  viewer : s.viewer.Small → s.viewer.Sound
  terminal : s.terminal.Bounded

/-- Painting keeps what every read of the sheet keeps, and takes nothing from the terminal. -/
theorem succeeds_paint {I : Viewer → Prop} {s : Session} {slots : List Viewer.Slot}
    (hread : ∀ {v}, I v → ∀ r, ∃ c t, v.compute r = some (c, t) ∧ I t)
    (hslots : s.viewer.slots s.terminal.width = .ok slots) (h : I s.viewer) :
    Succeeds paint s fun _ t =>
      I t.viewer ∧ t.terminal = { s.terminal with frames := t.terminal.frames } := by
  obtain ⟨c, v, hc, hv⟩ := Viewer.keeps_picture hread slots s.terminal.width s.terminal.height _ h
  have hpicture : Succeeds
      (onViewer (Viewer.picture slots s.terminal.width s.terminal.height)) s fun _ t =>
        I t.viewer ∧ t.terminal = { s.terminal with frames := t.terminal.frames } :=
    .onViewer hc ⟨hv, rfl⟩
  refine .getTerminal (.getViewer (.orFail hslots (hpicture.bind fun c t ht => ?_)))
  refine (Succeeds.updateTerminal ⟨ht.1, ?_⟩).bind fun _ u hu => .pure hu
  rw [ht.2]

namespace Steady

variable {s : Session}

section Prompt

theorem present (h : s.Steady) (f : Frame) : Succeeds (present f) s fun _ => Steady :=
  .updateTerminal ⟨h.viewer, h.terminal.height, h.terminal.pending⟩

theorem resize (h : s.Steady) {width height : Int64} (hsize : (Input.resize width height).Bounded) :
    Succeeds (resize width height) s fun _ => Steady :=
  .updateTerminal ⟨h.viewer, hsize, h.terminal.pending⟩

theorem await (h : s.Steady) {pending : List Input} (hpending : ∀ input ∈ pending, input.Bounded) :
    Succeeds (updateTerminal fun t => { t with pending }) s fun _ => Steady :=
  .updateTerminal ⟨h.viewer, h.terminal.height, hpending⟩

theorem paint (h : s.Steady) : Succeeds paint s fun _ => Steady := by
  obtain ⟨slots, hslots⟩ := h.viewer.1.exists_slots s.terminal.width
  obtain ⟨c, t, hrun, hviewer, hterminal⟩ :=
    succeeds_paint Viewer.Steady.exists_compute hslots h.viewer
  refine ⟨c, t, hrun, hviewer, ?_⟩
  rw [hterminal]
  exact ⟨h.terminal.height, h.terminal.pending⟩

theorem paintBox (h : s.Steady) (prompt : Text) (e : InputLine) :
    Succeeds (paintBox prompt e) s fun _ => Steady :=
  h.paint.bind fun _ _ ht => ht.present _

/-- Whatever is typed at a prompt, the viewer stays in its grid. -/
theorem editLine (h : s.Steady) (prompt : Text) (e : InputLine) {pending : List Input}
    (hpending : ∀ input ∈ pending, input.Bounded) :
    Succeeds (editLine prompt e pending) s fun _ => Steady := by
  induction pending generalizing s e with
  | nil => exact .pure h
  | cons input pending ih =>
    obtain ⟨hinput, hrest⟩ := List.forall_mem_cons.mp hpending
    have hmore {t : Session} (ht : t.Steady) (e : InputLine) : Succeeds
        (do Session.paintBox prompt e; Session.editLine prompt e pending) t fun _ => Steady :=
      (ht.paintBox prompt e).bind fun _ _ hu => ih hu e hrest
    refine (h.await hrest).bind fun _ t ht => ?_
    cases input with
    | key k =>
      dsimp only
      split
      · exact .pure ht
      · exact .pure ht
      · exact hmore ht _
    | resize width height => exact (ht.resize hinput).bind fun _ _ hu => hmore hu e
    | other => exact hmore ht e

theorem askLine (h : s.Steady) (prompt initial : Text) :
    Succeeds (askLine prompt initial) s fun _ => Steady :=
  (h.paintBox prompt _).bind fun _ _ ht => .getTerminal (ht.editLine prompt _ ht.terminal.pending)

end Prompt

section Keys

theorem settled (h : s.Steady) : s.Settled := ⟨fun _ => h.viewer.1, h.terminal⟩

/-- What leaves the viewer in its grid settles the session. -/
theorem moved (h : s.Steady) {v : Viewer} (hv : v.Sound) : Settled { s with viewer := v } :=
  ⟨fun _ => hv, h.terminal⟩

theorem runStatement (h : s.Steady) (src : Text) :
    Succeeds (onViewer (Viewer.runStatement src)) s fun _ => Settled := by
  obtain ⟨v, hrun, hv⟩ := h.viewer.1.exists_runStatement src
  exact .onViewer hrun ⟨hv, h.terminal⟩

theorem askStatement (h : s.Steady) : Succeeds askStatement s fun _ => Settled := by
  refine .getViewer ((h.askLine _ _).bind fun answer t ht => ?_)
  cases answer with
  | none => exact .pure ht.settled
  | some src => exact ht.runStatement src

/-- A key that moves by the rows of a screen. -/
theorem movePage (h : s.Steady) {f : Int64 → Viewer → Viewer}
    (hf : ∀ rows : Int64, 1 ≤ rows.toInt → rows.toInt ≤ 2 ^ 31 → (f rows s.viewer).Sound) :
    Succeeds (do let rows ← shownRowCount; update (f rows)) s fun _ => Settled := by
  obtain ⟨hheight, hlimit⟩ := h.terminal.height
  obtain ⟨rows, cols, hcapacity, hpos, hrows⟩ :=
    h.viewer.1.exists_capacity s.terminal.width hheight hlimit
  have hcount : Succeeds shownRowCount s fun n t => n = rows ∧ t = s :=
    .getTerminal <| .getViewer <| .orFail hcapacity <| .pure ⟨rfl, rfl⟩
  refine hcount.bind ?_
  rintro _ _ ⟨rfl, rfl⟩
  exact .update (h.moved (hf _ hpos hrows))

theorem press (h : s.Steady) (k : KeyEvent) : Succeeds (press k) s fun _ => Settled := by
  obtain ⟨hsound, hsmall⟩ := h.viewer
  -- Settings other than those of the grid may take any value.
  have hsettings (help expressions done : Bool) (message : Text) : Settled { s with
      viewer := { s.viewer with
        showsHelp := help, showsExpressions := expressions, isDone := done, message := message } } :=
    h.moved { hsound with }
  refine .getViewer ?_
  split
  · split
    · exact .update (hsettings _ _ _ _)
    · exact .pure h.settled
  · split
    · exact .update (hsettings _ _ _ _)
    · exact .update (hsettings _ _ _ _)
    · exact .update (h.moved hsound.moveUp)
    · exact .update (h.moved (hsound.moveDown hsmall))
    · split
      · obtain ⟨v, hv, hnarrow⟩ := hsound.narrow
        exact .attempt hv (h.moved hnarrow)
      · exact .update (h.moved hsound.moveLeft)
    · split
      · obtain ⟨v, hv, hwiden⟩ := hsound.widen hsmall
        exact .attempt hv (h.moved hwiden)
      · exact .update (h.moved (hsound.moveRight hsmall))
    · exact h.movePage fun _ hpos hrows => hsound.pageUp hpos hrows
    · exact h.movePage fun _ hpos hrows => hsound.pageDown hsmall hpos hrows
    · exact .update (h.moved hsound.home)
    · exact .update (h.moved hsound.moveToEnd)
    · exact .update (hsettings _ _ _ _)
    · exact .update (hsettings _ _ _ _)
    · exact .update (hsettings _ _ _ _)
    · exact h.askStatement
    · exact .pure h.settled

theorem scrollToCursor (h : s.Steady) : Succeeds scrollToCursor s fun _ => Settled := by
  obtain ⟨hheight, hlimit⟩ := h.terminal.height
  obtain ⟨v, hscroll, hv⟩ := h.viewer.1.scrollToCursor s.terminal.width hheight hlimit
  exact .getTerminal (.attempt hscroll (h.moved hv))

end Keys

end Steady

/-- What happens to a session: a key, a new size of the screen, inputs that wait for the next
prompt, and scrolling and drawing in between. -/
inductive Command where
  | press (k : KeyEvent)
  | scroll
  | paint
  | resize (width height : Int64)
  | await (pending : List Input)

namespace Command

def perform : Command → Interaction Unit
  | .press k => Session.press k
  | .scroll => Session.scrollToCursor
  | .paint => discard Session.paint
  | .resize width height => Session.resize width height
  | .await pending => updateTerminal fun t => { t with pending }

def Bounded : Command → Prop
  | .resize width height => (Input.resize width height).Bounded
  | .await pending => ∀ input ∈ pending, input.Bounded
  | .press _ | .scroll | .paint => True

theorem succeeds {s : Session} (h : s.Steady) {c : Command} (hc : c.Bounded) :
    Succeeds c.perform s fun _ => Settled := by
  have hweaken {m : Interaction Unit} (hm : Succeeds m s fun _ => Steady) :
      Succeeds m s fun _ => Settled := by
    obtain ⟨_, t, hm, ht⟩ := hm
    exact ⟨_, t, hm, ht.settled⟩
  cases c with
  | press k => exact h.press k
  | scroll => exact h.scrollToCursor
  | paint => exact h.paint.bind fun _ _ ht => .pure ht.settled
  | resize width height => exact hweaken (h.resize hc)
  | await pending => exact hweaken (h.await hc)

end Command

/-- The sessions that commands lead to, as long as nothing gets too large. A command that fails
leads to where it left the session. -/
inductive Reached (start : Session) : Session → Prop
  | start : Reached start start
  | next {s t : Session} {c : Command} {result : Except IndexFault Unit} (h : Reached start s)
      (hsmall : s.viewer.Small) (hc : c.Bounded) (hstep : c.perform.run s = some (result, t)) :
      Reached start t

theorem Reached.settled {start s : Session} (h : Reached start s) (hstart : start.Settled) :
    s.Settled := by
  induction h with
  | start => exact hstart
  | next h hsmall hc hstep ih =>
    obtain ⟨_, t, hrun, ht⟩ := Command.succeeds ⟨⟨ih.viewer hsmall, hsmall⟩, ih.terminal⟩ hc
    obtain ⟨-, rfl⟩ := Prod.mk.inj (Option.some.inj (hrun.symm.trans hstep))
    exact ht

/-- The viewer of a sheet never leaves its grid, and never looks up a column that it does not have:
whatever commands lead to a session, every further command succeeds. -/
theorem Reached.inGrid {sheet : Sheet} (hon : sheet.detectsCycles = true) (columnWidth : Int64)
    (showsExpressions : Bool) {terminal : Terminal} (hterminal : terminal.Bounded) {s : Session}
    (h : Reached ⟨.ofSheet sheet columnWidth showsExpressions, terminal⟩ s)
    (hsmall : s.viewer.Small) :
    s.viewer.InGrid ∧
      ∀ c : Command, c.Bounded → ∃ t, c.perform.run s = some (.ok (), t) := by
  have hs : s.Settled := by
    refine h.settled ⟨fun hstart => ?_, hterminal⟩
    refine Viewer.sound_ofSheet hon (fun r hr => ?_) columnWidth showsExpressions
    exact (hstart.cells r (by rwa [Viewer.sheet_ofSheet])).1
  have hsound := hs.viewer hsmall
  refine ⟨hsound.toInGrid, fun c hc => ?_⟩
  obtain ⟨_, t, hrun, -⟩ := Command.succeeds ⟨⟨hsound, hsmall⟩, hs.terminal⟩ hc
  exact ⟨t, hrun⟩

/-- A terminal at which a number gets assigned to the cell above `K1`. -/
def assigning : Terminal where
  width := 40
  height := 6
  pending := .key ⟨.ctrlU, true⟩ :: "K0 := 7".toList.map (fun c => .key (.typed c)) ++
    [.key ⟨.enter, false⟩]

/-- The prompt has made the grid of eight columns wider, for a cell above its first row. -/
theorem Reached.inGrid_above : assigning.Bounded ∧ ∃ s,
    Reached ⟨.ofSheet { detectsCycles := true } 3 false, assigning⟩ s ∧ s.viewer.Small ∧
    s.viewer.sheet.cells.refs = [⟨-1, 10⟩] ∧ s.viewer.widths.size = 11 ∧ s.viewer.InGrid ∧
    ∃ t, (Command.press ⟨.right, true⟩).perform.run s = some (.ok (), t) := by
  have hbounded : assigning.Bounded := ⟨by decide, by decide⟩
  let start : Session := ⟨.ofSheet { detectsCycles := true } 3 false, assigning⟩
  have hview : ((Command.press ⟨.char ':', false⟩).perform.run start).map (fun p =>
      (p.2.viewer.cursor, p.2.viewer.corner, p.2.viewer.sheet.cells.refs, p.2.viewer.widths)) =
      some (⟨0, 0⟩, ⟨0, 0⟩, [⟨-1, 10⟩], Array.replicate 11 12) := by decide +kernel
  obtain ⟨⟨result, s⟩, hstep, hs⟩ := Option.map_eq_some_iff.mp hview
  simp only [Prod.mk.injEq] at hs
  obtain ⟨hcursor, hcorner, hrefs, hwidths⟩ := hs
  have hwidth {n : Nat} : ∀ w ∈ Array.replicate n (12 : Int64), w.toInt < 2 ^ 62 := fun w hw => by
    rw [Array.eq_of_mem_replicate hw]
    decide
  have hstart : start.viewer.Small := ⟨by decide, by decide, by decide, hwidth (n := 8)⟩
  have hreached : Reached start s :=
    .next (c := .press ⟨.char ':', false⟩) .start hstart trivial hstep
  have hsmall : s.viewer.Small := by
    refine ⟨?_, ?_, ?_, ?_⟩
    · rw [hcursor]
      decide
    · rw [hcorner]
      decide
    · rw [hrefs]
      decide
    · rw [hwidths]
      exact hwidth
  obtain ⟨hgrid, hnext⟩ := Reached.inGrid rfl 3 false hbounded hreached hsmall
  exact ⟨hbounded, s, hreached, hsmall, hrefs, by rw [hwidths]; rfl, hgrid, hnext _ trivial⟩

end Session
end Spreadsheet
