import Spreadsheet.Cells
import Spreadsheet.Proofs.Word
import Mathlib.Data.List.Sort

/-! # Looking up stored cells

Cells are determined by what is found at each reference. A written cell is found there and nowhere
else, and a change of all contents in place keeps the references. The extent bounds what is in use.
-/
namespace Spreadsheet

theorem Ref.lt_irrefl (r : Ref) : ¬ r < r := by
  simp [Ref.lt_def]

theorem Entry.lookup_cons (e : Entry) (xs : List Entry) (r : Ref) :
    (e :: xs).lookup r = if r = e.1 then some e.2 else xs.lookup r := by
  rw [List.lookup_cons]
  by_cases h : r = e.1
  · simp [h]
  · simp [h, beq_eq_false_iff_ne.mpr h]

theorem Entry.lookup_insertInto (e : Entry) (xs : List Entry) (r : Ref) :
    (Entry.insertInto e xs).lookup r = if r = e.1 then some e.2 else xs.lookup r := by
  induction xs with
  | nil => exact lookup_cons e [] r
  | cons x xs ih =>
    simp only [insertInto]
    split
    · exact lookup_cons e (x :: xs) r
    · split
      · next hlt =>
        have hne : x.1 ≠ e.1 := fun h => Ref.lt_irrefl _ (h ▸ hlt)
        simp only [lookup_cons, ih]
        by_cases h : r = x.1
        · simp [h, hne]
        · simp [h]
      · next hxe hex =>
        have heq : e.1 = x.1 := Ref.eq_of_not_lt hxe hex
        simp only [lookup_cons, ← heq]
        by_cases h : r = e.1 <;> simp [h]

namespace Cells

theorem get?_insert (s : Cells) (r x : Ref) (c : Cell) :
    (s.insert r c).get? x = if x = r then some c else s.get? x :=
  Entry.lookup_insertInto (r, c) s.entries x

theorem get?_eq_some_iff {s : Cells} {r : Ref} {c : Cell} :
    s.get? r = some c ↔ (r, c) ∈ s.entries := by
  obtain ⟨entries, hsorted⟩ := s
  simp only [get?]
  induction entries with
  | nil => simp
  | cons x xs ih =>
    obtain ⟨hx, hxs⟩ := List.pairwise_cons.mp hsorted
    rw [Entry.lookup_cons, List.mem_cons]
    by_cases h : r = x.1
    · subst h
      have hnot : (x.1, c) ∉ xs := fun hmem => Ref.lt_irrefl _ (hx (x.1, c) hmem)
      simp [hnot, Prod.ext_iff, eq_comm]
    · simp [h, ih hxs, Prod.ext_iff]

theorem mem_refs {s : Cells} {r : Ref} : r ∈ s.refs ↔ ∃ c, s.get? r = some c := by
  simp only [refs, List.mem_map, get?_eq_some_iff]
  constructor
  · rintro ⟨⟨x, c⟩, hmem, rfl⟩
    exact ⟨c, hmem⟩
  · rintro ⟨c, hmem⟩
    exact ⟨(r, c), hmem, rfl⟩

theorem nodup_refs (s : Cells) : s.refs.Nodup := by
  refine List.pairwise_map.mpr (s.sorted.imp fun {a b} hlt heq => ?_)
  rw [heq] at hlt
  exact Ref.lt_irrefl b.1 hlt

/-- The order of entries is strict, so that a sorted list is determined by its members. -/
theorem ext_get? {s t : Cells} (h : ∀ r, s.get? r = t.get? r) : s = t := by
  obtain ⟨xs, hxs⟩ := s
  obtain ⟨ys, hys⟩ := t
  have hmem : ∀ e : Entry, e ∈ xs ↔ e ∈ ys := fun e => by
    rw [← get?_eq_some_iff (s := ⟨xs, hxs⟩) (c := e.2), h e.1, get?_eq_some_iff]
  let before (a b : Entry) : Prop := a.1 < b.1
  have : Std.Irrefl before := ⟨fun a => Ref.lt_irrefl a.1⟩
  have : Std.Antisymm before :=
    ⟨fun a b hab hba => absurd (Ref.lt_trans hab hba) (Ref.lt_irrefl a.1)⟩
  have heq : xs = ys := List.Pairwise.eq_of_mem_iff (r := before) hxs hys hmem
  subst heq
  rfl

def mapCells (f : Ref → Cell → Cell) (s : Cells) : Cells :=
  ⟨s.entries.map fun e => (e.1, f e.1 e.2), by
    rw [List.pairwise_map]
    exact s.sorted⟩

theorem get?_mapCells (f : Ref → Cell → Cell) (s : Cells) (r : Ref) :
    (s.mapCells f).get? r = (s.get? r).map (f r) := by
  simp only [get?, mapCells]
  induction s.entries with
  | nil => rfl
  | cons x xs ih =>
    simp only [List.map_cons, Entry.lookup_cons, ih]
    by_cases h : r = x.1 <;> simp [h]

@[simp] theorem refs_mapCells (f : Ref → Cell → Cell) (s : Cells) : (s.mapCells f).refs = s.refs := by
  simp [refs, mapCells]

/-- Which cells are stored determines their order. -/
theorem refs_congr {s t : Cells} (h : ∀ r, (s.get? r).isSome = (t.get? r).isSome) :
    s.refs = t.refs := by
  have heq : s.mapCells (fun _ _ => {}) = t.mapCells fun _ _ => {} := by
    refine ext_get? fun r => ?_
    have hr := h r
    rw [get?_mapCells, get?_mapCells]
    cases hs : s.get? r <;> cases ht : t.get? r <;> simp_all
  rw [← refs_mapCells (fun _ _ => {}) s, heq, refs_mapCells]

/-- The extent is below a bound exactly if -1 and all that is in use are. -/
theorem foldl_extent_lt_iff (entries : List Entry) (b : Int64 × Int64) (n : Int) :
    ((entries.foldl (fun b e => (max b.1 e.1.row, max b.2 e.1.col)) b).1.toInt < n ↔
      b.1.toInt < n ∧ ∀ e ∈ entries, e.1.row.toInt < n) ∧
    ((entries.foldl (fun b e => (max b.1 e.1.row, max b.2 e.1.col)) b).2.toInt < n ↔
      b.2.toInt < n ∧ ∀ e ∈ entries, e.1.col.toInt < n) := by
  induction entries generalizing b with
  | nil => simp
  | cons e entries ih =>
    rw [List.foldl_cons]
    obtain ⟨hrow, hcol⟩ := ih (max b.1 e.1.row, max b.2 e.1.col)
    rw [hrow, hcol]
    simp only [toInt_max, Int.max_lt, List.mem_cons, forall_eq_or_imp, and_assoc, and_self]

theorem extent_row_lt_iff {cells : Cells} {n : Int} :
    cells.extent.1.toInt < n ↔ -1 < n ∧ ∀ r ∈ cells.refs, r.row.toInt < n := by
  rw [extent, (foldl_extent_lt_iff cells.entries (-1, -1) n).1, refs, List.forall_mem_map]
  rfl

theorem extent_col_lt_iff {cells : Cells} {n : Int} :
    cells.extent.2.toInt < n ↔ -1 < n ∧ ∀ r ∈ cells.refs, r.col.toInt < n := by
  rw [extent, (foldl_extent_lt_iff cells.entries (-1, -1) n).2, refs, List.forall_mem_map]
  rfl

end Cells
end Spreadsheet
