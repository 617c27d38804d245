import Spreadsheet.Proofs.Cells.History
import Spreadsheet.Proofs.Sheet.Caches
import Spreadsheet.Proofs.Sheet.Listing

/-! # A listing settles the caches

A listing computes the stored cells one after the other, and each computation rewrites the caches of
cells listed before and after. Every line still says what a read of its cell alone gives. When all
cells are listed every cache has been refreshed, so that nothing changes any more. An output that
fails cuts the listing off between two lines.
-/
namespace Spreadsheet

open Formula Grammar

namespace Cells

variable {cells : Cells} {busy : List Ref} {X : Ref → Prop} {r : Ref} {c : Cell}

/-- A cell that has been refreshed is stored as a read shows it. -/
theorem shown_of_get?_refresh (hX : X r) (hr : r ∉ busy)
    (hget : (cells.refresh busy X).get? r = some c) : cells.shown busy r = c := by
  rw [get?_refresh] at hget
  obtain ⟨d, hd, hc⟩ := Option.map_eq_some_iff.mp hget
  rw [shown, hd]
  cases hformula : d.formula? r with
  | none =>
    -- no cache: what is stored is the value
    simp only [hformula, Option.isSome_none, Bool.false_eq_true, and_false, if_false] at hc
    rw [valueOf_unreadable hd hr hformula, ← hc]
  | some e =>
    simp only [hformula, hX, Option.isSome_some, and_self, if_true] at hc
    exact hc

theorem reached_refs (hget : cells.get? r = some c) (hr : r ∉ busy) :
    cells.Reached busy cells.refs r :=
  ⟨hr, r, mem_refs.mpr ⟨c, hget⟩, .refl⟩

end Cells

namespace Sheet

variable {s t u : Sheet} {xs : List Ref} {r : Ref} {c : Cell}

/-- Reading cells does not change what the lines of a listing say. -/
theorem listingLines_of_reading (h : s.reading xs t) (rs : List Ref) :
    t.listingLines rs = s.listingLines rs := by
  have hsources := s.cells.sameSources_refresh s.evaluating (s.cells.Reached s.evaluating xs)
  simp only [listingLines, h.evaluating_eq, h.cells_eq, hsources.shown_eq]

theorem refs_of_reading (h : s.reading xs t) : t.cells.refs = s.cells.refs := by
  rw [h.cells_eq, Cells.refs_refresh]

/-- Reading the same cells once more changes nothing. -/
theorem cells_of_reading_twice (h : s.reading xs t) (h' : t.reading xs u) : u.cells = t.cells := by
  have hcells := h'.cells_eq
  rw [h.cells_eq, h.evaluating_eq, Cells.refresh_reached_append] at hcells
  rw [hcells, h.cells_eq]
  refine Cells.refresh_congr fun x => ?_
  rw [Cells.reached_append, or_self]

/-- After all cells have been read each is stored as a read shows it. -/
theorem compute_of_reading_all (hon : s.detectsCycles = true) (h : s.reading s.cells.refs t)
    (hget : t.get? r = some c) (hr : r ∉ s.evaluating) : ∃ u, compute r t = some (c, u) := by
  have hsources := s.cells.sameSources_refresh s.evaluating
    (s.cells.Reached s.evaluating s.cells.refs)
  obtain ⟨u, hcompute, -⟩ := compute_of_detects (h.detectsCycles_eq.trans hon) r
  rw [h.evaluating_eq, h.cells_eq, ← hsources.shown_eq] at hcompute
  rw [Sheet.get?, h.cells_eq] at hget
  obtain ⟨d, hd, -⟩ := hsources.symm.exists_get? hget
  rw [Cells.shown_of_get?_refresh (Cells.reached_refs hd hr) hr hget] at hcompute
  exact ⟨u, hcompute⟩

/-- A listing has a line for each stored cell, in row-major order, with what a read of that cell
alone gives on the sheet before. Afterwards every cell is stored as a read gives it, and another
listing says the same and changes nothing. An output that takes some lines and then fails gets
these, and the listing fails at the next cell if there is one. -/
theorem list_settles (s : Sheet) (hon : s.detectsCycles = true) :
    ∃ (shown : Ref → Cell) (lines : List Text),
      (∀ r, ∃ u, compute r s = some (shown r, u)) ∧
      (∀ r c, s.get? r = some c → (shown r).expression = c.expression) ∧
      (∀ r, r ∈ s.cells.refs ↔ ∃ c, s.get? r = some c) ∧
      s.cells.refs.Pairwise (fun a b => a.row < b.row ∨ a.row = b.row ∧ a.col < b.col) ∧
      lines = s.cells.refs.map (fun r => r.label ++ Text.ofString " := " ++ (shown r).expression ++
        Text.ofString " = " ++ (shown r).value.text) ∧
      (∃ out t, list {} s = some ((none, out), t) ∧ out.text = Text.ofLines lines ∧
        (∀ r c, t.get? r = some c → r ∉ s.evaluating → ∃ u, compute r t = some (c, u)) ∧
        ∃ u, list {} t = some ((none, out), u) ∧ u.cells = t.cells) ∧
      ∀ limit, ∃ out t, list { room := some limit } s = some ((s.cells.refs[limit]?, out), t) ∧
        out.text = Text.ofLines (lines.take limit) ∧
        (s.cells.refs[limit]?.isSome ↔ limit < s.cells.size) := by
  refine ⟨s.cells.shown s.evaluating, s.listingLines s.cells.refs, fun r => ?_, fun r c hget => ?_,
    fun r => Cells.mem_refs, s.cells.pairwise_refs, rfl, ?_, fun limit => ?_⟩
  · obtain ⟨u, hcompute, -⟩ := compute_of_detects hon r
    exact ⟨u, hcompute⟩
  · rw [Cells.shown_expression, show s.cells.get? r = some c from hget]
    rfl
  · have hroom : ({} : Output).room = none := rfl
    obtain ⟨t, hlist, ht⟩ := list_of_room hon hroom
    obtain ⟨u, hagain, hu⟩ := list_of_room (ht.detectsCycles_eq.trans hon) hroom
    rw [refs_of_reading ht, listingLines_of_reading ht] at hagain
    rw [refs_of_reading ht] at hu
    refine ⟨_, t, hlist, Output.text_addLines _ _, ?_, u, hagain, cells_of_reading_twice ht hu⟩
    exact fun r c hget hr => compute_of_reading_all hon ht hget hr
  · have hroom : ({ room := some limit } : Output).room = some limit := rfl
    obtain ⟨out, t, hlist, htext, -⟩ := list_of_limit hon hroom
    refine ⟨out, t, hlist, ?_, ?_⟩
    · rw [htext, listingLines, List.map_take]
      rfl
    · simp [Cells.refs, Cells.size]

/-- The caches are wrong at first, and two cells refer to each other. -/
theorem list_settles_tangled : (tangled fun _ => .int 9).detectsCycles = true ∧
    ∃ out t, list {} (tangled fun _ => .int 9) = some ((none, out), t) ∧
      out.text = Text.ofLines [Text.ofString "A1 := B1+C1 = ", Text.ofString "B1 := A1*2 = ",
        Text.ofString "C1 := 4 = 4", Text.ofString "D1 := ? = 3", Text.ofString "E1 := C1+D1 = 7"] ∧
      t.get? ⟨0, 4⟩ = some ⟨Text.ofString "C1+D1", .int 7⟩ ∧
      (∃ u, compute ⟨0, 4⟩ t = some (⟨Text.ofString "C1+D1", .int 7⟩, u)) ∧
      (∃ u, list {} t = some ((none, out), u) ∧ u.cells = t.cells) ∧
      ∃ out' t', list { room := some 2 } (tangled fun _ => .int 9) =
          some ((some ⟨0, 2⟩, out'), t') ∧
        out'.text = Text.ofLines [Text.ofString "A1 := B1+C1 = ", Text.ofString "B1 := A1*2 = "] := by
  obtain ⟨shown, lines, -, -, -, -, -, ⟨out, t, hlist, htext, hread, hagain⟩, hlimit⟩ :=
    list_settles (tangled fun _ => .int 9) rfl
  obtain ⟨out', t', hlist', -, -⟩ := hlimit 2
  have hrun : (list {} (tangled fun _ => .int 9)).map
        (fun p => (p.1.2.text, p.2.get? ⟨0, 4⟩)) =
      some (Text.ofLines [Text.ofString "A1 := B1+C1 = ", Text.ofString "B1 := A1*2 = ",
        Text.ofString "C1 := 4 = 4", Text.ofString "D1 := ? = 3", Text.ofString "E1 := C1+D1 = 7"],
        some ⟨Text.ofString "C1+D1", .int 7⟩) := by
    decide +kernel
  have hrun' : (list { room := some 2 } (tangled fun _ => .int 9)).map (·.1.2.text) =
      some (Text.ofLines [Text.ofString "A1 := B1+C1 = ", Text.ofString "B1 := A1*2 = "]) := by
    decide +kernel
  rw [hlist, Option.map_some, Option.some.injEq, Prod.mk.injEq] at hrun
  rw [hlist', Option.map_some, Option.some.injEq] at hrun'
  exact ⟨rfl, out, t, hlist, hrun.1, hrun.2, hread _ _ hrun.2 (by decide), hagain, out', t', hlist',
    hrun'⟩

end Sheet
end Spreadsheet
