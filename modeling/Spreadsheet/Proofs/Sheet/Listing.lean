import Spreadsheet.Sheet.Listing
import Spreadsheet.Viewer
import Spreadsheet.Proofs.Sheet.Execution

/-! # What gets written

An output that takes every write collects the lines of a listing and of reports. What a sheet prints
is told by the reports in its journal alone.
-/
namespace Spreadsheet

def Text.ofLines (ts : List Text) : Text := ts.flatMap (· ++ [newline])

theorem Text.ofLines_append (ts us : List Text) : ofLines (ts ++ us) = ofLines ts ++ ofLines us :=
  List.flatMap_append

namespace Output

def addLines (o : Output) (ts : List Text) : Output :=
  { o with pieces := (ts.map (· ++ [Text.newline])).reverse ++ o.pieces }

variable {o : Output}

theorem text_addLines (o : Output) (ts : List Text) :
    (o.addLines ts).text = o.text ++ Text.ofLines ts := by
  simp [addLines, text, Text.ofLines, List.flatMap_def]

theorem addLines_cons (o : Output) (t : Text) (ts : List Text) :
    (o.addLines [t]).addLines ts = o.addLines (t :: ts) := by
  simp [addLines]

theorem write_of_room (h : o.room = none) (t : Text) :
    o.write (t ++ [Text.newline]) = some (o.addLines [t]) := by
  simp [write, addLines, h]

theorem write_of_limit {limit : Nat} (h : o.room = some (limit + 1)) (t : Text) :
    o.write t = some ⟨t :: o.pieces, some limit⟩ := by
  simp [write, h]

theorem write_of_full (h : o.room = some 0) (t : Text) : o.write t = none := by
  simp [write, h]

end Output

namespace Sheet

section Reports

variable {s t : Sheet} {cells : Cells} {reports : List Event}

theorem reportLines_append (es fs : List Event) :
    Viewer.reportLines (es ++ fs) = Viewer.reportLines es ++ Viewer.reportLines fs := by
  induction es with
  | nil => rfl
  | cons e es ih => cases e <;> simp [Viewer.reportLines, ih]

theorem reportLines_filter (es : List Event) :
    Viewer.reportLines (es.filter Event.isPrinted) = Viewer.reportLines es := by
  induction es with
  | nil => rfl
  | cons e es ih =>
    cases e with
    | logged entry => exact ih
    | printed r context => exact congrArg (r.line :: ·) ih

def printedText (s : Sheet) : Text := Text.ofLines (Viewer.reportLines s.journal.reverse)

/-- The log has no part in what is printed. -/
theorem printedText_eq (s : Sheet) : s.printedText =
    Text.ofLines (Viewer.reportLines (s.journal.filter Event.isPrinted).reverse) := by
  rw [← List.filter_reverse, reportLines_filter]
  rfl

theorem After.printedText_eq (h : s.After cells reports t) : t.printedText =
    s.printedText ++ Text.ofLines (Viewer.reportLines reports.reverse) := by
  rw [t.printedText_eq, h.filter_journal, List.reverse_append, reportLines_append,
    Text.ofLines_append, ← s.printedText_eq]

theorem deliver_of_room (events : List Event) {out : Output} (h : out.room = none) :
    (deliver events out).2 = out.addLines (Viewer.reportLines events) := by
  induction events generalizing out with
  | nil => rfl
  | cons e events ih =>
    cases e with
    | logged entry => exact ih h
    | printed r context =>
      simp only [deliver, Output.write_of_room h, Viewer.reportLines]
      have hroom : (out.addLines [r.line]).room = none := h
      rw [ih hroom, Output.addLines_cons]

end Reports

section Listing

variable {base t : Sheet} {xs : List Ref} {out : Output}

/-- The lines for some cells, without a computation. -/
def listingLines (s : Sheet) (rs : List Ref) : List Text :=
  rs.map fun r => listing r (s.cells.shown s.evaluating r)

/-- The next cell is computed, and then its line is written or the listing ends. The cells that were
listed before do not matter to what the line says. -/
theorem listCells_cons (hon : base.detectsCycles = true) (ht : base.reading xs t) (r : Ref)
    (rs : List Ref) (out : Output) :
    ∃ u, base.reading (xs ++ [r]) u ∧
      (∀ out', out.write (listing r (base.cells.shown base.evaluating r) ++ [Text.newline]) =
        some out' → listCells (r :: rs) out t = listCells rs out' u) ∧
      (out.write (listing r (base.cells.shown base.evaluating r) ++ [Text.newline]) = none →
        listCells (r :: rs) out t = some ((some r, out), u)) := by
  have hread : Gives (base.reading xs) (effects.compute r) (base.cells.shown base.evaluating r)
    (base.reading (xs ++ [r])) := (passage_effects hon).compute trivial
  obtain ⟨u, hcompute, hu⟩ := hread t ht
  refine ⟨u, hu, fun out' hwrite => ?_, fun hwrite => ?_⟩
  · rw [listCells]
    refine (bind_apply_of_some hcompute).trans ?_
    rw [hwrite]
  · rw [listCells]
    refine (bind_apply_of_some hcompute).trans ?_
    rw [hwrite]
    rfl

theorem listCells_of_reading (hon : base.detectsCycles = true) (hroom : out.room = none)
    (ht : base.reading xs t) (rs : List Ref) :
    ∃ u, listCells rs out t = some ((none, out.addLines (base.listingLines rs)), u) ∧
      base.reading (xs ++ rs) u := by
  induction rs generalizing xs t out with
  | nil => exact ⟨t, rfl, by rwa [List.append_nil]⟩
  | cons r rs ih =>
    obtain ⟨u, hu, hwritten, -⟩ := listCells_cons hon ht r rs out
    have hroom' : (out.addLines [listing r (base.cells.shown base.evaluating r)]).room = none := hroom
    obtain ⟨v, hrest, hv⟩ := ih hroom' hu
    rw [List.append_assoc] at hv
    refine ⟨v, ?_, hv⟩
    rw [hwritten _ (Output.write_of_room hroom _), hrest, Output.addLines_cons]
    rfl

/-- An output with room for some lines takes those of the first cells. The listing ends with the
first cell whose line finds no room, after that cell has been computed. -/
theorem listCells_of_limit {limit : Nat} (hon : base.detectsCycles = true)
    (hroom : out.room = some limit) (ht : base.reading xs t) (rs : List Ref) :
    ∃ out' u, listCells rs out t = some ((rs[limit]?, out'), u) ∧
      out'.text = out.text ++ Text.ofLines (base.listingLines (rs.take limit)) ∧
      base.reading (xs ++ rs.take (limit + 1)) u := by
  induction rs generalizing xs t out limit with
  | nil => exact ⟨out, t, rfl, by simp [listingLines, Text.ofLines], by simpa using ht⟩
  | cons r rs ih =>
    obtain ⟨u, hu, hwritten, hfailed⟩ := listCells_cons hon ht r rs out
    cases limit with
    | zero =>
      -- the caches that this cell leads to are refreshed, though its line is refused
      exact ⟨out, u, hfailed (Output.write_of_full hroom _), by simp [listingLines, Text.ofLines],
        by simpa using hu⟩
    | succ limit =>
      have hwrite := hwritten _ (Output.write_of_limit hroom _)
      have hroom' : (⟨(listing r (base.cells.shown base.evaluating r) ++ [Text.newline]) :: out.pieces,
        some limit⟩ : Output).room = some limit := rfl
      obtain ⟨out', v, hrest, htext, hv⟩ := ih hroom' hu
      refine ⟨out', v, hwrite.trans hrest, ?_, by simpa using hv⟩
      rw [htext]
      simp [Output.text, listingLines, Text.ofLines]

theorem reading_self (base : Sheet) : base.reading [] base := by
  rw [reading_nil]
  exact After.refl base

theorem list_of_room (hon : base.detectsCycles = true) (hroom : out.room = none) :
    ∃ t, list out base =
        some ((none, out.addLines (base.listingLines base.cells.refs)), t) ∧
      base.reading base.cells.refs t :=
  listCells_of_reading hon hroom base.reading_self base.cells.refs

theorem list_of_limit {limit : Nat} (hon : base.detectsCycles = true)
    (hroom : out.room = some limit) :
    ∃ out' t, list out base = some ((base.cells.refs[limit]?, out'), t) ∧
      out'.text = out.text ++ Text.ofLines (base.listingLines (base.cells.refs.take limit)) ∧
      base.reading (base.cells.refs.take (limit + 1)) t :=
  listCells_of_limit hon hroom base.reading_self base.cells.refs

end Listing

end Sheet
end Spreadsheet
