import Spreadsheet.Proofs.Viewer.Session

/-! # What sessions keep

A session changes its viewer in three ways only: drawing reads cells, the prompt runs statements,
and all other keys move the view about or change its settings. So a property of viewers that all
three keep holds when the session is over, however it ends.
-/
namespace Spreadsheet

/-- From every session whose viewer has the first property the action ends, whether it fails or not,
and leaves a viewer with the second one. -/
def Ends {α : Type} (I J : Viewer → Prop) (m : Interaction α) : Prop :=
  ∀ s : Session, I s.viewer → ∃ result t, m.run s = some (result, t) ∧ J t.viewer

namespace Ends

open Session

variable {α β : Type} {I J : Viewer → Prop}

theorem pure (hIJ : ∀ v, I v → J v) (a : α) : Ends I J (pure a) :=
  fun s hs => ⟨.ok a, s, rfl, hIJ _ hs⟩

/-- What fails on the way has the first property still. -/
theorem bind {m : Interaction α} {k : α → Interaction β} (hIJ : ∀ v, I v → J v) (hm : Ends I I m)
    (hk : ∀ a, Ends I J (k a)) : Ends I J (m >>= k) := by
  intro s hs
  obtain ⟨result, t, ha, ht⟩ := hm s hs
  cases result with
  | ok a =>
    obtain ⟨b, u, hb, hu⟩ := hk a t ht
    exact ⟨b, u, (bind_apply_of_some (m := m.run) ha).trans hb, hu⟩
  | error f => exact ⟨.error f, t, bind_apply_of_some (m := m.run) ha, hIJ _ ht⟩

theorem getViewer : Ends I I getViewer := fun s hs => ⟨.ok s.viewer, s, rfl, hs⟩

theorem getTerminal : Ends I I getTerminal := fun s hs => ⟨.ok s.terminal, s, rfl, hs⟩

theorem orFail (e : Except IndexFault α) : Ends I I (orFail e) := by
  cases e with
  | ok a => exact .pure (fun _ h => h) a
  | error f => exact fun s hs => ⟨.error f, s, rfl, hs⟩

theorem update {f : Viewer → Viewer} (hf : ∀ v, I v → J (f v)) : Ends I J (update f) :=
  fun s hs => ⟨.ok (), { s with viewer := f s.viewer }, rfl, hf _ hs⟩

theorem updateTerminal (f : Terminal → Terminal) : Ends I I (updateTerminal f) :=
  fun _ hs => ⟨.ok (), _, rfl, hs⟩

theorem attempt (hIJ : ∀ v, I v → J v) {f : Viewer → Except IndexFault Viewer}
    (hf : ∀ v w, f v = .ok w → I v → J w) : Ends I J (attempt f) := by
  intro s hs
  change ∃ result t,
    (Session.orFail (f s.viewer) >>= fun w => Session.update fun _ => w).run s = some (result, t) ∧ _
  cases hv : f s.viewer with
  | error e => exact ⟨.error e, s, rfl, hIJ _ hs⟩
  | ok w => exact ⟨.ok (), { s with viewer := w }, rfl, hf _ _ hv hs⟩

theorem onViewer {c : Computation Viewer α} (hc : ∀ v, I v → ∃ a w, c v = some (a, w) ∧ J w) :
    Ends I J (onViewer c) := by
  intro s hs
  obtain ⟨a, v, hrun, hv⟩ := hc s.viewer hs
  refine ⟨.ok a, { s with viewer := v }, ?_, hv⟩
  change (c s.viewer).map _ = _
  rw [hrun]
  rfl

end Ends

namespace Viewer

/-- What a key other than that of the prompt may change: never the sheet or the layout, and a width
only to a neighbouring one. The view starts in another column only after scrolling, which takes it
to no column before the first one. -/
structure Moved (v w : Viewer) : Prop where
  sheet : w.sheet = v.sheet
  layout : w.layout = v.layout
  corner : w.corner.col = v.corner.col ∨ 0 ≤ w.corner.col.toInt
  widths : ∀ a ∈ w.widths, a ∈ v.widths ∨ a = v.layout.columnWidth ∨
    (∃ b ∈ v.widths, minimumWidth < b ∧ a = b - 1) ∨ ∃ b ∈ v.widths, a = b + 1

namespace Moved

variable {v w : Viewer}

/-- Nothing but rows, the cursor and settings has changed. -/
theorem of_eq (hsheet : w.sheet = v.sheet) (hlayout : w.layout = v.layout)
    (hcorner : w.corner.col = v.corner.col) (hwidths : w.widths = v.widths) : Moved v w :=
  ⟨hsheet, hlayout, .inl hcorner, fun _ ha => .inl (hwidths ▸ ha)⟩

theorem refl (v : Viewer) : Moved v v := .of_eq rfl rfl rfl rfl

theorem reachRow (h : Moved v w) (row : Int64) : Moved v (w.reachRow row) := by
  unfold Viewer.reachRow
  split
  · exact { h with }
  · exact h

theorem moveUp (v : Viewer) : Moved v v.moveUp := by
  unfold Viewer.moveUp
  split
  · exact .of_eq rfl rfl rfl rfl
  · exact .refl v

theorem moveLeft (v : Viewer) : Moved v v.moveLeft := by
  unfold Viewer.moveLeft
  split
  · exact .of_eq rfl rfl rfl rfl
  · exact .refl v

theorem moveDown (v : Viewer) : Moved v v.moveDown := by
  have hmoved : Moved v (v.moveTo ⟨v.cursor.row + 1, v.cursor.col⟩) := .of_eq rfl rfl rfl rfl
  exact hmoved.reachRow _

theorem moveRight (v : Viewer) : Moved v v.moveRight := by
  obtain ⟨ws, hws, -, -, hnew⟩ :=
    exists_reachColumn (v.moveTo ⟨v.cursor.row, v.cursor.col + 1⟩) (v.cursor.col + 1)
  rw [Viewer.moveRight, hws]
  exact ⟨rfl, rfl, .inl rfl, fun a ha => (hnew a ha).imp_right .inl⟩

theorem pageUp (v : Viewer) (rows : Int64) : Moved v (v.pageUp rows) := .of_eq rfl rfl rfl rfl

theorem pageDown (v : Viewer) (rows : Int64) : Moved v (v.pageDown rows) := by
  have hmoved : Moved v { v with
      corner := ⟨v.corner.row + rows, v.corner.col⟩
      cursor := ⟨v.cursor.row + rows, v.cursor.col⟩ } := .of_eq rfl rfl rfl rfl
  exact hmoved.reachRow _

theorem mem_of_currentWidth {a : Int64} (h : v.currentWidth = .ok a) : a ∈ v.widths := by
  simp only [currentWidth] at h
  split at h
  · cases h
  · split at h
    · next hget =>
      cases h
      exact Array.mem_of_getElem? hget
    · cases h

theorem setCurrentWidth {a : Int64} (ha : a ∈ v.widths ∨ a = v.layout.columnWidth ∨
      (∃ b ∈ v.widths, minimumWidth < b ∧ a = b - 1) ∨ ∃ b ∈ v.widths, a = b + 1) :
    Moved v (v.setCurrentWidth a) := by
  refine ⟨rfl, rfl, .inl rfl, fun x hx => ?_⟩
  rcases Array.mem_or_eq_of_mem_setIfInBounds hx with hold | rfl
  · exact .inl hold
  · exact ha

/-- A change that first looks something up, which may fail. -/
theorem of_lookup {α : Type} {x : Except IndexFault α} {f : α → Viewer}
    (hf : ∀ a, x = .ok a → Moved v (f a)) (h : (x >>= fun a => pure (f a)) = .ok w) :
    Moved v w := by
  cases x with
  | error e => cases h
  | ok a =>
    cases h
    exact hf a rfl

theorem narrow (h : v.narrow = .ok w) : Moved v w := by
  refine of_lookup (fun a ha => ?_) h
  split
  · next hlt =>
    exact .setCurrentWidth (.inr (.inr (.inl ⟨a, mem_of_currentWidth ha, hlt, rfl⟩)))
  · exact .refl v

theorem widen (h : v.widen = .ok w) : Moved v w :=
  of_lookup (fun a ha => .setCurrentWidth (.inr (.inr (.inr ⟨a, mem_of_currentWidth ha, rfl⟩)))) h

theorem scrollToCursor {width height : Int64} (h : v.scrollToCursor width height = .ok w) :
    Moved v w := by
  refine of_lookup (fun shown _ => ?_) h
  refine ⟨rfl, rfl, .inr ?_, fun _ ha => .inl ha⟩
  rw [toInt_min, toInt_max, toInt_max, Int64.toInt_zero]
  omega

end Moved

end Viewer

namespace Session

open Viewer

variable {I J : Viewer → Prop} (hread : ∀ {v}, I v → ∀ r, ∃ c t, v.compute r = some (c, t) ∧ I t)
  (hmove : ∀ {v w}, Moved v w → I v → J w)
  (hrun : ∀ src v, I v → ∃ a w, runStatement src v = some (a, w) ∧ J w)

section Prompt

include hread

theorem ends_paint : Ends I I paint := by
  have hkeep (v : Viewer) (hv : I v) : I v := hv
  apply Ends.getTerminal.bind hkeep
  intro t
  apply Ends.getViewer.bind hkeep
  intro v
  apply (Ends.orFail _).bind hkeep
  intro slots
  apply (Ends.onViewer (keeps_picture hread slots t.width t.height)).bind hkeep
  intro c
  exact (Ends.updateTerminal _).bind hkeep fun _ => .pure hkeep c

theorem ends_paintBox (prompt : Text) (e : InputLine) : Ends I I (paintBox prompt e) :=
  (ends_paint hread).bind (fun _ h => h) fun _ => .updateTerminal _

theorem ends_editLine (prompt : Text) (e : InputLine) (pending : List Input) :
    Ends I I (editLine prompt e pending) := by
  have hkeep (v : Viewer) (hv : I v) : I v := hv
  induction pending generalizing e with
  | nil => exact .pure hkeep none
  | cons input pending ih =>
    have hmore (e : InputLine) : Ends I I (do paintBox prompt e; editLine prompt e pending) :=
      (ends_paintBox hread prompt e).bind hkeep fun _ => ih e
    apply (Ends.updateTerminal _).bind hkeep
    intro _
    cases input with
    | key k =>
      dsimp only
      split
      · exact .pure hkeep _
      · exact .pure hkeep none
      · exact hmore _
    | resize width height => exact (Ends.updateTerminal _).bind hkeep fun _ => hmore e
    | other => exact hmore e

theorem ends_askLine (prompt initial : Text) : Ends I I (askLine prompt initial) :=
  (ends_paintBox hread prompt _).bind (fun _ h => h) fun _ =>
    Ends.getTerminal.bind (fun _ h => h) fun _ => ends_editLine hread prompt _ _

end Prompt

section Keys

include hmove

theorem ends_scrollToCursor : Ends I J scrollToCursor := by
  have hIJ (v : Viewer) : I v → J v := hmove (.refl v)
  exact Ends.getTerminal.bind hIJ fun _ => .attempt hIJ fun _ _ hv => hmove (.scrollToCursor hv)

include hread hrun

theorem ends_askStatement : Ends I J askStatement := by
  have hIJ (v : Viewer) : I v → J v := hmove (.refl v)
  apply Ends.getViewer.bind hIJ
  intro v
  apply (ends_askLine hread _ _).bind hIJ
  intro answer
  cases answer with
  | none => exact .pure hIJ ()
  | some src => exact .onViewer (hrun src)

theorem ends_press (k : KeyEvent) : Ends I J (press k) := by
  have hIJ (v : Viewer) : I v → J v := hmove (.refl v)
  have hpage (f : Int64 → Viewer → Viewer) (hf : ∀ rows v, Moved v (f rows v)) :
      Ends I J (do let rows ← shownRowCount; update (f rows)) := by
    refine Ends.bind hIJ ?_ fun rows => .update fun v => hmove (hf rows v)
    apply Ends.getTerminal.bind (fun _ h => h)
    intro t
    apply Ends.getViewer.bind (fun _ h => h)
    intro v
    exact (Ends.orFail _).bind (fun _ h => h) fun _ => .pure (fun _ h => h) _
  apply Ends.getViewer.bind hIJ
  intro v
  split
  · split
    · exact .update fun _ => hmove (.of_eq rfl rfl rfl rfl)
    · exact .pure hIJ ()
  · split
    · exact .update fun _ => hmove (.of_eq rfl rfl rfl rfl)
    · exact .update fun _ => hmove (.of_eq rfl rfl rfl rfl)
    · exact .update fun v => hmove (.moveUp v)
    · exact .update fun v => hmove (.moveDown v)
    · split
      · exact .attempt hIJ fun _ _ hv => hmove (.narrow hv)
      · exact .update fun v => hmove (.moveLeft v)
    · split
      · exact .attempt hIJ fun _ _ hv => hmove (.widen hv)
      · exact .update fun v => hmove (.moveRight v)
    · exact hpage (fun rows v => v.pageUp rows) fun rows v => .pageUp v rows
    · exact hpage (fun rows v => v.pageDown rows) fun rows v => .pageDown v rows
    · exact .update fun _ => hmove (.of_eq rfl rfl rfl rfl)
    · exact .update fun _ => hmove (.of_eq rfl rfl rfl rfl)
    · exact .update fun _ => hmove (.of_eq rfl rfl rfl rfl)
    · exact .update fun _ => hmove (.of_eq rfl rfl rfl rfl)
    · exact .update fun _ => hmove (.of_eq rfl rfl rfl rfl)
    · exact ends_askStatement hread hmove hrun
    · exact .pure hIJ ()

theorem ends_perform (c : Command) : Ends I J c.perform := by
  have hIJ (v : Viewer) : I v → J v := hmove (.refl v)
  have hweaken {m : Interaction Unit} (hm : Ends I I m) : Ends I J m := by
    intro s hs
    obtain ⟨result, t, hrun, ht⟩ := hm s hs
    exact ⟨result, t, hrun, hIJ _ ht⟩
  cases c with
  | press k => exact ends_press hread hmove hrun k
  | scroll => exact ends_scrollToCursor hmove
  | paint => exact (ends_paint hread).bind hIJ fun _ => .pure hIJ ()
  | resize width height =>
    exact hweaken (.updateTerminal fun t => { t with width, height, syncs := t.syncs + 1 })
  | await pending => exact hweaken (.updateTerminal fun t => { t with pending })

end Keys

section Interaction

variable (hmoves : ∀ {v w}, Moved v w → I v → I w)
  (hruns : ∀ src v, I v → ∃ a w, runStatement src v = some (a, w) ∧ I w)

include hread hmoves hruns

theorem ends_interactWithin (steps : Nat) : Ends I I (interactWithin steps) := by
  have hkeep (v : Viewer) (hv : I v) : I v := hv
  induction steps with
  | zero => exact .pure hkeep ()
  | succ steps ih =>
    apply Ends.getViewer.bind hkeep
    intro v
    split
    · exact .pure hkeep ()
    · apply (ends_scrollToCursor hmoves).bind hkeep
      intro _
      apply (ends_paint hread).bind hkeep
      intro _
      apply Ends.getTerminal.bind hkeep
      intro t
      split
      · exact .pure hkeep ()
      · apply (Ends.updateTerminal _).bind hkeep
        intro _
        split
        · exact (ends_press hread hmoves hruns _).bind hkeep fun _ => ih
        · exact (Ends.updateTerminal _).bind hkeep fun _ => ih
        · exact ih

theorem ends_interact : Ends I I interact :=
  Ends.getTerminal.bind (fun _ h => h) fun _ => ends_interactWithin hread hmoves hruns _

end Interaction

end Session

namespace Sheet

/-- Nothing was printed on the sheet, and it is there to be read. -/
structure Quiet (s : Sheet) : Prop where
  detects : s.detectsCycles = true
  journal : s.journal.filter Event.isPrinted = []

theorem Quiet.exists_compute {v : Viewer} (h : v.sheet.Quiet) (r : Ref) :
    ∃ c t, v.compute r = some (c, t) ∧ t.sheet.Quiet := by
  obtain ⟨t, hcompute, hafter⟩ := compute_of_detects h.detects r
  refine ⟨_, { v with sheet := t }, by rw [Viewer.compute, hcompute]; rfl,
    hafter.detectsCycles_eq.trans h.detects, ?_⟩
  rw [hafter.filter_journal, h.journal]
  rfl

theorem filter_leftover (src rest : Text) :
    (Viewer.leftover src rest).filter Event.isPrinted = [] := by
  unfold Viewer.leftover
  split <;> rfl

/-- What a statement prints becomes the message of the viewer. -/
theorem Quiet.exists_runStatement {v : Viewer} (h : v.sheet.Quiet) (src : Text) :
    ∃ a w, Viewer.runStatement src v = some (a, w) ∧ w.sheet.Quiet := by
  have hon : Sheet.detectsCycles { v.sheet with journal := [] } = true := h.detects
  obtain ⟨sheet, hexecute, hafter⟩ := execute_eq hon src
  refine ⟨(), _, by rw [Viewer.runStatement, hexecute]; rfl, ?_⟩
  rw [Viewer.sheet_coverSheet]
  refine ⟨hafter.detectsCycles_eq.trans hon, ?_⟩
  rw [List.filter_append, List.filter_append, filter_leftover, List.nil_append, h.journal,
    List.append_nil, List.filter_filter, List.filter_eq_nil_iff]
  intro e _
  cases e <;> simp [Event.isPrinted, Viewer.isLogged]

end Sheet

/-- A session comes to an end, and prints nothing on its sheet. -/
theorem Session.exists_interact {s : Session} (h : s.viewer.sheet.Quiet) :
    ∃ result t, interact.run s = some (result, t) ∧ t.viewer.sheet.Quiet :=
  ends_interact Sheet.Quiet.exists_compute (fun hmoved hquiet => hmoved.sheet ▸ hquiet)
    (fun src _ hquiet => hquiet.exists_runStatement src) s h

end Spreadsheet
