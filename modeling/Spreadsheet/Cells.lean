import Spreadsheet.Ref
import Spreadsheet.Value

/-! # Stored cells

A finite map from references to contents, kept as a list of entries in row-major order. A cell that
was never written has no entry.
-/
namespace Spreadsheet

abbrev Entry := Ref × Cell

namespace Entry

/-- Writes an entry in its place, over the entry of the same reference if there is one. -/
def insertInto (e : Entry) : List Entry → List Entry
  | [] => [e]
  | x :: xs =>
    if e.1 < x.1 then e :: x :: xs
    else if x.1 < e.1 then x :: insertInto e xs
    else e :: xs

theorem mem_insertInto {e y : Entry} {xs : List Entry} (h : y ∈ insertInto e xs) :
    y = e ∨ y ∈ xs := by
  induction xs with
  | nil => simpa [insertInto] using h
  | cons x xs ih =>
    simp only [insertInto] at h
    split at h
    · simpa using h
    · split at h
      · rcases List.mem_cons.1 h with rfl | h
        · simp
        · rcases ih h with rfl | h <;> simp [*]
      · rcases List.mem_cons.1 h with rfl | h <;> simp [*]

theorem insertInto_sorted (e : Entry) {xs : List Entry} (h : xs.Pairwise (·.1 < ·.1)) :
    (insertInto e xs).Pairwise (·.1 < ·.1) := by
  induction xs with
  | nil => simp [insertInto]
  | cons x xs ih =>
    obtain ⟨hx, hxs⟩ := List.pairwise_cons.1 h
    simp only [insertInto]
    split
    · next lt =>
      refine List.pairwise_cons.2 ⟨fun y hy => ?_, h⟩
      rcases List.mem_cons.1 hy with rfl | hy
      · exact lt
      · exact Ref.lt_trans lt (hx y hy)
    · split
      · next lt =>
        refine List.pairwise_cons.2 ⟨fun y hy => ?_, ih hxs⟩
        rcases mem_insertInto hy with rfl | hy
        · exact lt
        · exact hx y hy
      · next nlt ngt =>
        have eq : e.1 = x.1 := Ref.eq_of_not_lt nlt ngt
        exact List.pairwise_cons.2 ⟨fun y hy => eq ▸ hx y hy, hxs⟩

end Entry

structure Cells where
  entries : List Entry
  sorted : entries.Pairwise (·.1 < ·.1)

namespace Cells

instance : Inhabited Cells := ⟨⟨[], .nil⟩⟩

def empty : Cells := ⟨[], .nil⟩

def insert (s : Cells) (r : Ref) (c : Cell) : Cells :=
  ⟨Entry.insertInto (r, c) s.entries, Entry.insertInto_sorted _ s.sorted⟩

def get? (s : Cells) (r : Ref) : Option Cell := s.entries.lookup r

def size (s : Cells) : Nat := s.entries.length

/-- The written cells in row-major order. -/
def refs (s : Cells) : List Ref := s.entries.map (·.1)

/-- Visits entries in row-major order until `visit` says to stop. -/
def foldUntil {σ : Type} (visit : σ → Entry → σ × Bool) (init : σ) (s : Cells) : σ :=
  go init s.entries
where
  go (state : σ) : List Entry → σ
    | [] => state
    | e :: es =>
      match visit state e with
      | (state, true) => go state es
      | (state, false) => state

/-- The largest row and column in use, each at least -1. -/
def extent (s : Cells) : Int64 × Int64 :=
  s.entries.foldl (fun b e => (max b.1 e.1.row, max b.2 e.1.col)) (-1, -1)

end Cells
end Spreadsheet
