import Spreadsheet.Proofs.Sheet.Dependency

/-! # Refreshing cached values

The value kept with a cell is a cache unless the text of the cell cannot be read. Values depend only
on what is no cache. Reading a cell refreshes the caches of all cells that it leads to, each with
the value that the cell has on its own.
-/
namespace Spreadsheet

open Formula Relation

/-- A cell without the value that can be computed from its text. -/
def Cell.source (r : Ref) (c : Cell) : Cell :=
  if (c.formula? r).isSome then { c with value := .empty } else c

theorem Cell.source_expression (r : Ref) (c : Cell) : (c.source r).expression = c.expression := by
  unfold source
  split <;> rfl

theorem Cell.source_of_none {r : Ref} {c : Cell} (h : c.formula? r = none) : c.source r = c := by
  rw [source, h]
  rfl

theorem Cell.source_eq_iff {r : Ref} {c d : Cell} : c.source r = d.source r ↔
    c.expression = d.expression ∧ (c.formula? r = none → c.value = d.value) := by
  have hformula (h : c.expression = d.expression) : c.formula? r = d.formula? r := by
    rw [formula?, formula?, h]
  constructor
  · intro h
    have hexpr : c.expression = d.expression := by
      rw [← c.source_expression r, h, d.source_expression r]
    refine ⟨hexpr, fun hnone => ?_⟩
    rw [source_of_none hnone, source_of_none (hformula hexpr ▸ hnone)] at h
    rw [h]
  · rintro ⟨hexpr, hvalue⟩
    simp only [source, hformula hexpr]
    cases hnone : d.formula? r with
    | none =>
      obtain ⟨ce, cv⟩ := c
      obtain ⟨de, dv⟩ := d
      have := hvalue (hformula hexpr ▸ hnone)
      simp_all
    | some e =>
      simp [hexpr]

namespace Cells

/-- The same cells are stored with the same texts, and those whose text cannot be read with the same
values. -/
def SameSources (s t : Cells) : Prop :=
  ∀ r, (s.get? r).map (Cell.source r) = (t.get? r).map (Cell.source r)

namespace SameSources

variable {s t u : Cells} {busy : List Ref} {r x y : Ref}

theorem refl (s : Cells) : s.SameSources s := fun _ => rfl

theorem symm (h : s.SameSources t) : t.SameSources s := fun r => (h r).symm

theorem trans (h : s.SameSources t) (h' : t.SameSources u) : s.SameSources u :=
  fun r => (h r).trans (h' r)

theorem get?_eq_none (h : s.SameSources t) (hs : s.get? r = none) : t.get? r = none := by
  have hr := h r
  rw [hs] at hr
  exact Option.map_eq_none_iff.mp hr.symm

theorem exists_get? (h : s.SameSources t) {c : Cell} (hs : s.get? r = some c) :
    ∃ d, t.get? r = some d ∧ d.expression = c.expression ∧ d.formula? r = c.formula? r ∧
      (c.formula? r = none → d.value = c.value) := by
  have hr := h r
  rw [hs] at hr
  obtain ⟨d, hd, hsource⟩ := Option.map_eq_some_iff.mp hr.symm
  obtain ⟨hexpr, hvalue⟩ := Cell.source_eq_iff.mp hsource
  have hformula : d.formula? r = c.formula? r := by rw [Cell.formula?, Cell.formula?, hexpr]
  exact ⟨d, hd, hexpr, hformula, fun hnone => hvalue (hformula ▸ hnone)⟩

/-- The sources of cells include their texts. -/
theorem expression_eq (h : s.SameSources t) (r : Ref) :
    (s.get? r).map (·.expression) = (t.get? r).map (·.expression) := by
  cases hget : s.get? r with
  | none => rw [h.get?_eq_none hget]
  | some c =>
    obtain ⟨d, hd, hexpression, -⟩ := h.exists_get? hget
    rw [hd, Option.map_some, Option.map_some, hexpression]

theorem insert (h : s.SameSources t) (r : Ref) (c : Cell) :
    (s.insert r c).SameSources (t.insert r c) := by
  intro x
  rw [get?_insert, get?_insert]
  by_cases hx : x = r
  · simp [hx]
  · simpa [hx] using h x

theorem formula?_eq (h : s.SameSources t) (r : Ref) : s.formula? r = t.formula? r := by
  rw [formula?, formula?]
  cases hs : s.get? r with
  | none => rw [h.get?_eq_none hs]
  | some c =>
    obtain ⟨d, hd, -, hformula, -⟩ := h.exists_get? hs
    rw [hd, Option.bind_some, Option.bind_some, hformula]

theorem dependencies_eq (h : s.SameSources t) (r : Ref) : s.dependencies r = t.dependencies r := by
  rw [dependencies, dependencies, h.formula?_eq]

theorem feeds_eq (h : s.SameSources t) (busy : List Ref) : s.Feeds busy = t.Feeds busy := by
  funext a b
  rw [Feeds, Feeds, h.dependencies_eq]

theorem leads_iff (h : s.SameSources t) : s.Leads busy x y ↔ t.Leads busy x y := by
  rw [Leads, Leads, h.feeds_eq]

theorem valueOf_eq (h : s.SameSources t) (busy : List Ref) (r : Ref) :
    s.valueOf busy r = t.valueOf busy r := by
  induction busy, r using computation_induction s with
  | unstored busy r hget => rw [valueOf_unstored hget, valueOf_unstored (h.get?_eq_none hget)]
  | cut busy r c hget hr => rw [valueOf_busy hr, valueOf_busy hr]
  | unreadable busy r c hget hr hformula =>
    obtain ⟨d, hd, -, hformula', hvalue⟩ := h.exists_get? hget
    rw [valueOf_unreadable hget hr hformula, valueOf_unreadable hd hr (hformula'.trans hformula),
      hvalue hformula]
  | formula busy r c e hget hr hformula ih =>
    obtain ⟨d, hd, -, hformula', -⟩ := h.exists_get? hget
    rw [valueOf_formula hget hr hformula, valueOf_formula hd hr (hformula'.trans hformula)]
    exact Expression.eval_congr fun x _ => ih x

end SameSources

section Refresh

variable {cells : Cells} {busy : List Ref} {X Y : Ref → Prop} {r x y : Ref}

open Classical in
noncomputable def refresh (cells : Cells) (busy : List Ref) (X : Ref → Prop) : Cells :=
  cells.mapCells fun x c =>
    if X x ∧ (c.formula? x).isSome then { c with value := cells.valueOf busy x } else c

open Classical in
theorem get?_refresh (x : Ref) : (cells.refresh busy X).get? x = (cells.get? x).map fun c =>
    if X x ∧ (c.formula? x).isSome then { c with value := cells.valueOf busy x } else c :=
  get?_mapCells _ _ _

@[simp] theorem refs_refresh : (cells.refresh busy X).refs = cells.refs := refs_mapCells _ _

theorem sameSources_refresh (cells : Cells) (busy : List Ref) (X : Ref → Prop) :
    cells.SameSources (cells.refresh busy X) := by
  intro x
  rw [get?_refresh]
  cases cells.get? x with
  | none => rfl
  | some c =>
    simp only [Option.map_some, Option.some.injEq]
    split
    · next h =>
      refine Cell.source_eq_iff.mpr ⟨rfl, fun hnone => ?_⟩
      simp [hnone] at h
    · rfl

theorem refresh_congr (h : ∀ x, X x ↔ Y x) : cells.refresh busy X = cells.refresh busy Y := by
  rw [show X = Y from funext fun x => propext (h x)]

theorem refresh_none (h : ∀ x, ¬ X x) : cells.refresh busy X = cells := by
  refine ext_get? fun x => ?_
  rw [get?_refresh]
  cases cells.get? x with
  | none => rfl
  | some c => simp [h x]

/-- A cell that nothing feeds leads to itself alone. -/
theorem Leads.eq_of_not_feeds (h : cells.Leads busy r x) (hr : ∀ y, ¬ cells.Feeds busy y r) :
    x = r := by
  rcases h.cases_head with rfl | ⟨y, hy, -⟩
  · rfl
  · exact absurd hy (hr y)

theorem refresh_refresh :
    (cells.refresh busy X).refresh busy Y = cells.refresh busy fun x => X x ∨ Y x := by
  refine ext_get? fun x => ?_
  have hvalue := (sameSources_refresh cells busy X).valueOf_eq busy x
  rw [get?_refresh, get?_refresh, get?_refresh, ← hvalue]
  cases cells.get? x with
  | none => rfl
  | some c =>
    have hformula (v : Value) : ({ c with value := v } : Cell).formula? x = c.formula? x := rfl
    by_cases hx : X x <;> by_cases hy : Y x <;> by_cases hc : (c.formula? x).isSome <;>
      simp [hx, hy, hc, hformula]

/-- The cells that are not busy and that one of `roots` leads to. -/
def Reached (cells : Cells) (busy roots : List Ref) (x : Ref) : Prop :=
  x ∉ busy ∧ ∃ r ∈ roots, cells.Leads busy r x

theorem reached_append {xs ys : List Ref} :
    cells.Reached busy (xs ++ ys) x ↔ cells.Reached busy xs x ∨ cells.Reached busy ys x := by
  simp only [Reached, List.mem_append, or_and_right, exists_or, and_or_left]

theorem refresh_reached_nil (cells : Cells) (busy : List Ref) :
    cells.refresh busy (cells.Reached busy []) = cells :=
  refresh_none (by simp [Reached])

/-- Reading a cell that nothing is computed from changes nothing. -/
theorem refresh_reached_of_not_feeds (hr : ∀ y, ¬ cells.Feeds busy y r)
    (hself : ∀ c, cells.get? r = some c → r ∉ busy → c.formula? r = none) :
    cells.refresh busy (cells.Reached busy [r]) = cells := by
  refine ext_get? fun x => ?_
  rw [get?_refresh]
  cases hget : cells.get? x with
  | none => rfl
  | some c =>
    have hnot : ¬ (cells.Reached busy [r] x ∧ (c.formula? x).isSome) := by
      rintro ⟨⟨hx, r', hr', hlead⟩, hsome⟩
      rw [List.mem_singleton.mp hr'] at hlead
      obtain rfl := hlead.eq_of_not_feeds hr
      simp [hself c hget hx] at hsome
    simp [hnot]

/-- The last departure from `r` on a way from it goes on without coming back. -/
theorem Leads.eq_or_exists (h : cells.Leads busy r x) :
    x = r ∨ ∃ y ∈ cells.dependencies r, cells.Leads (r :: busy) y x := by
  induction h with
  | refl => exact .inl rfl
  | @tail b z _ hz ih =>
    by_cases hb : b = r
    · subst hb
      exact .inr ⟨z, hz.2, .refl⟩
    · obtain ⟨y, hy, hlead⟩ := ih.resolve_left hb
      exact .inr ⟨y, hy, hlead.tail ⟨by simp [hb, hz.1], hz.2⟩⟩

theorem reached_cons_iff (hr : r ∉ busy) (hx : x ≠ r) :
    cells.Reached (r :: busy) (cells.dependencies r) x ↔ cells.Reached busy [r] x := by
  constructor
  · rintro ⟨hnot, y, hy, hlead⟩
    refine ⟨fun h => hnot (List.mem_cons_of_mem r h), r, by simp, ?_⟩
    exact .head ⟨hr, hy⟩ (hlead.mono (List.subset_cons_self r busy))
  · rintro ⟨hnot, r', hr', hlead⟩
    rw [List.mem_singleton.mp hr'] at hlead
    obtain ⟨y, hy, hlead⟩ := hlead.eq_or_exists.resolve_left hx
    exact ⟨by simp [hx, hnot], y, hy, hlead⟩

/-- Refreshing what the dependencies of a cell lead to while it is busy, and then the cell itself,
refreshes all that the cell leads to. -/
theorem insert_refresh {c : Cell} {e : Expression Factor} (hget : cells.get? r = some c)
    (hr : r ∉ busy) (hformula : c.formula? r = some e) :
    (cells.refresh (r :: busy) (cells.Reached (r :: busy) e.refs)).insert r
        { c with value := cells.valueOf busy r } =
      cells.refresh busy (cells.Reached busy [r]) := by
  have hdeps : cells.dependencies r = e.refs := by
    simp [dependencies, formula?, hget, hformula]
  refine ext_get? fun x => ?_
  rw [get?_insert]
  by_cases hx : x = r
  · subst hx
    have hself : cells.Reached busy [x] x := ⟨hr, x, by simp, .refl⟩
    rw [if_pos rfl, get?_refresh, hget]
    simp [hself, hformula]
  · have hiff : cells.Reached (r :: busy) e.refs x ↔ cells.Reached busy [r] x :=
      hdeps ▸ reached_cons_iff hr hx
    rw [if_neg hx, get?_refresh, get?_refresh]
    by_cases hreached : cells.Reached busy [r] x
    · have hvalue : cells.valueOf (r :: busy) x = cells.valueOf busy x := by
        obtain ⟨-, y, hy, hlead⟩ := hiff.mpr hreached
        exact valueOf_cons_of_feeds hr (hdeps ▸ hy) (hlead.mono (List.subset_cons_self r busy))
      simp [hreached, hiff, hvalue]
    · simp [hreached, hiff]

def shown (cells : Cells) (busy : List Ref) (r : Ref) : Cell :=
  match cells.get? r with
  | none => {}
  | some c => { c with value := cells.valueOf busy r }

theorem shown_value (cells : Cells) (busy : List Ref) (r : Ref) :
    (cells.shown busy r).value = cells.valueOf busy r := by
  unfold shown
  cases hget : cells.get? r with
  | none => exact (valueOf_unstored hget).symm
  | some c => rfl

theorem shown_expression (cells : Cells) (busy : List Ref) (r : Ref) :
    (cells.shown busy r).expression = ((cells.get? r).map (·.expression)).getD [] := by
  unfold shown
  cases cells.get? r <;> rfl

theorem SameSources.shown_eq {s t : Cells} (h : s.SameSources t) (busy : List Ref) (r : Ref) :
    s.shown busy r = t.shown busy r := by
  unfold shown
  cases hs : s.get? r with
  | none => rw [h.get?_eq_none hs]
  | some c =>
    obtain ⟨d, hd, hexpr, -⟩ := h.exists_get? hs
    rw [hd]
    simp only [Cell.mk.injEq]
    exact ⟨hexpr.symm, h.valueOf_eq busy r⟩

theorem SameSources.reached_iff {s t : Cells} (h : s.SameSources t) {roots : List Ref} :
    s.Reached busy roots x ↔ t.Reached busy roots x := by
  simp only [Reached, h.leads_iff]

theorem refresh_reached_append (xs ys : List Ref) :
    (cells.refresh busy (cells.Reached busy xs)).refresh busy
        ((cells.refresh busy (cells.Reached busy xs)).Reached busy ys) =
      cells.refresh busy (cells.Reached busy (xs ++ ys)) := by
  rw [refresh_refresh]
  refine refresh_congr fun x => ?_
  rw [reached_append, ← (sameSources_refresh cells busy (cells.Reached busy xs)).reached_iff]

end Refresh

end Cells
end Spreadsheet
