import Spreadsheet.Proofs.Cells
import Mathlib.Data.Set.Card

/-! # Cells by their history

Stored cells come about by writing and clearing. What is found in them afterwards is said of the
operations alone: the last contents written to each reference since the last clearing, in row-major
order. A visit that stops early has seen the first of these entries.
-/
namespace Spreadsheet.Cells

inductive Operation where
  | put (r : Ref) (c : Cell)
  | clear

def Operation.apply : Operation → Cells → Cells
  | .put r c, s => s.insert r c
  | .clear, _ => .empty

/-- The cells that operations, oldest first, make of none. -/
def ofHistory (ops : List Operation) : Cells := ops.foldl (fun s op => op.apply s) .empty

/-- The contents were written to the reference, and since then nothing was cleared and nothing
written there. -/
def LastPut (ops : List Operation) (r : Ref) (c : Cell) : Prop :=
  ∃ before after, ops = before ++ .put r c :: after ∧ .clear ∉ after ∧ ∀ d, .put r d ∉ after

def writtenRefs (ops : List Operation) : Set Ref := {r | ∃ c, LastPut ops r c}

section History

variable {ops : List Operation} {op : Operation} {r : Ref} {c : Cell}

theorem not_lastPut_nil : ¬ LastPut [] r c := by
  rintro ⟨before, after, hops, -⟩
  simp at hops

/-- One more operation is the last write itself, or it leaves the last write alone. -/
theorem lastPut_append_singleton : LastPut (ops ++ [op]) r c ↔
    op = .put r c ∨ op ≠ .clear ∧ (∀ d, op ≠ .put r d) ∧ LastPut ops r c := by
  constructor
  · rintro ⟨before, after, hops, hclear, hput⟩
    rcases List.eq_nil_or_concat' after with rfl | ⟨after, last, rfl⟩
    · obtain ⟨-, hop⟩ := List.append_inj' hops rfl
      exact .inl (List.singleton_inj.mp hop)
    · have hsplit : ops ++ [op] = (before ++ .put r c :: after) ++ [last] := by simpa using hops
      obtain ⟨rfl, hop⟩ := List.append_inj' hsplit rfl
      obtain rfl := List.singleton_inj.mp hop
      simp only [List.mem_append, List.mem_singleton, not_or] at hclear hput
      refine .inr ⟨Ne.symm hclear.2, fun d => Ne.symm (hput d).2, before, after, rfl, hclear.1, ?_⟩
      exact fun d => (hput d).1
  · rintro (rfl | ⟨hop, hput, before, after, rfl, hclear, hafter⟩)
    · exact ⟨ops, [], rfl, by simp, by simp⟩
    · refine ⟨before, after ++ [op], by simp, ?_, fun d => ?_⟩
      · simpa [hclear] using Ne.symm hop
      · simpa [hafter d] using Ne.symm (hput d)

/-- Every operation keeps what is found in step with the last writes. -/
theorem get?_ofHistory : (ofHistory ops).get? r = some c ↔ LastPut ops r c := by
  induction ops using List.reverseRecOn generalizing r c with
  | nil => exact iff_of_false (by simp [ofHistory, get?, empty]) not_lastPut_nil
  | append_singleton ops op ih =>
    have hstep : ofHistory (ops ++ [op]) = op.apply (ofHistory ops) := by simp [ofHistory]
    rw [hstep, lastPut_append_singleton]
    cases op with
    | clear => simp [Operation.apply, get?, empty]
    | put x d =>
      rw [Operation.apply, get?_insert, ← ih]
      by_cases h : r = x
      · simp [h]
      · simp [h, Ne.symm h]

theorem mem_refs_ofHistory : r ∈ (ofHistory ops).refs ↔ r ∈ writtenRefs ops := by
  simp only [mem_refs, get?_ofHistory, writtenRefs, Set.mem_ofPred_eq]

end History

section Order

variable (s : Cells)

theorem pairwise_refs : s.refs.Pairwise (· < ·) := List.pairwise_map.mpr s.sorted

theorem size_eq_ncard : s.size = {r | r ∈ s.refs}.ncard := by
  have hset : {r | r ∈ s.refs} = (s.refs.toFinset : Set Ref) := by
    ext r
    simp
  rw [hset, Set.ncard_coe_finset, List.toFinset_card_of_nodup s.nodup_refs, refs, List.length_map,
    size]

theorem isGreatest_extent_row :
    IsGreatest ({-1} ∪ Ref.row '' {r | r ∈ s.refs}) s.extent.1 := by
  apply isGreatest_of_toInt_lt_iff
  intro n
  simp [extent_row_lt_iff, or_imp, forall_and]

theorem isGreatest_extent_col :
    IsGreatest ({-1} ∪ Ref.col '' {r | r ∈ s.refs}) s.extent.2 := by
  apply isGreatest_of_toInt_lt_iff
  intro n
  simp [extent_col_lt_iff, or_imp, forall_and]

end Order

section Visits

variable {σ : Type} (visit : σ → Entry → σ × Bool)

/-- What a visitor makes of a state at one entry after the other. -/
def through (init : σ) (entries : List Entry) : σ := entries.foldl (fun x e => (visit x e).1) init

/-- A visitor that is shown the entries `seen ++ unseen` goes on up to the last of `seen`, and it
says to stop there if there are others. -/
structure StopsAfter (init : σ) (seen unseen : List Entry) : Prop where
  goes_on : ∀ before e after, seen = before ++ e :: after → after ≠ [] →
    (visit (through visit init before) e).2 = true
  stops : unseen ≠ [] → ∃ before e, seen = before ++ [e] ∧
    (visit (through visit init before) e).2 = false

variable {visit}

/-- A visit goes on from an entry as it would start there. -/
theorem StopsAfter.cons {init : σ} {e : Entry} {seen unseen : List Entry}
    (hon : (visit init e).2 = true) (h : StopsAfter visit (visit init e).1 seen unseen) :
    StopsAfter visit init (e :: seen) unseen where
  goes_on := by
    intro before x after hsplit hafter
    rcases List.cons_eq_append_iff.mp hsplit with ⟨rfl, hx⟩ | ⟨before, rfl, rfl⟩
    · obtain rfl := (List.cons.inj hx).1
      exact hon
    · exact h.goes_on before x after rfl hafter
  stops := by
    intro hunseen
    obtain ⟨before, x, rfl, hstop⟩ := h.stops hunseen
    exact ⟨e :: before, x, rfl, hstop⟩

theorem exists_stopsAfter (visit : σ → Entry → σ × Bool) (init : σ) (s : Cells) :
    ∃ seen unseen, s.entries = seen ++ unseen ∧
      s.foldUntil visit init = through visit init seen ∧ StopsAfter visit init seen unseen := by
  unfold foldUntil
  induction s.entries generalizing init with
  | nil => exact ⟨[], [], rfl, rfl, by simp, by simp⟩
  | cons e entries ih =>
    cases hvisit : visit init e with
    | mk next on =>
      cases on with
      | false =>
        refine ⟨[e], entries, rfl, by simp [foldUntil.go, through, hvisit], ?_, fun _ => ?_⟩
        · intro before x after hsplit hafter
          simp [List.singleton_eq_append_iff, hafter] at hsplit
        · exact ⟨[], e, rfl, by simp [through, hvisit]⟩
      | true =>
        obtain ⟨seen, unseen, rfl, hfold, hstops⟩ := ih next
        refine ⟨e :: seen, unseen, rfl, ?_, .cons (by rw [hvisit]) (by rwa [hvisit])⟩
        simp [foldUntil.go, through, hvisit, hfold]

end Visits

/-- Cells are a finite map with row-major iteration: whatever was written and cleared, each
reference holds what was last put there, the references are listed once each in increasing order, a
visit sees a first part of them with their contents, and the extent is the largest row and column in
use. -/
theorem ofHistory_isMap (ops : List Operation) :
    (∀ r c, (ofHistory ops).get? r = some c ↔ LastPut ops r c) ∧
    (ofHistory ops).size = (writtenRefs ops).ncard ∧
    ((ofHistory ops).refs.Nodup ∧ (ofHistory ops).refs.Pairwise (· < ·) ∧
      ∀ r, r ∈ (ofHistory ops).refs ↔ r ∈ writtenRefs ops) ∧
    (∀ (σ : Type) (visit : σ → Entry → σ × Bool) (init : σ), ∃ seen unseen,
      (ofHistory ops).refs = (seen ++ unseen).map (·.1) ∧
      (∀ e ∈ seen, LastPut ops e.1 e.2) ∧
      (ofHistory ops).foldUntil visit init = through visit init seen ∧
      StopsAfter visit init seen unseen) ∧
    IsGreatest ({-1} ∪ Ref.row '' writtenRefs ops) (ofHistory ops).extent.1 ∧
    IsGreatest ({-1} ∪ Ref.col '' writtenRefs ops) (ofHistory ops).extent.2 := by
  have hrefs : {r | r ∈ (ofHistory ops).refs} = writtenRefs ops := by
    ext r
    exact mem_refs_ofHistory
  refine ⟨fun r c => get?_ofHistory, ?_, ⟨nodup_refs _, pairwise_refs _, fun r => mem_refs_ofHistory⟩,
    fun σ visit init => ?_, ?_, ?_⟩
  · rw [size_eq_ncard, hrefs]
  · obtain ⟨seen, unseen, hentries, hfold, hstops⟩ := exists_stopsAfter visit init (ofHistory ops)
    refine ⟨seen, unseen, by rw [refs, hentries], fun e he => ?_, hfold, hstops⟩
    rw [← get?_ofHistory, get?_eq_some_iff, hentries]
    exact List.mem_append_left unseen he
  · rw [← hrefs]
    exact isGreatest_extent_row _
  · rw [← hrefs]
    exact isGreatest_extent_col _

end Spreadsheet.Cells
