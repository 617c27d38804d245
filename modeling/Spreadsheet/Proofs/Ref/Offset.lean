import Spreadsheet.Proofs.Formula.Layout
import Spreadsheet.Proofs.Sheet.Execution

/-! # Relative references

A relative reference denotes the cell whose coordinates are the exact sums of those of its context
and of the distances, if the grid has such a cell, and none otherwise. Sums are 64-bit words: one
that is too large wraps to a negative word and is refused like any other. A sum that is too small
wraps to a cell, but from row -1 on there is only one: that of row -1 and the least of all
distances.
-/
namespace Spreadsheet

open Formula Grammar Text

section Sums

variable {a b : Int64}

/-- A sum is at least zero as a word exactly if it is so as an integer and a word can hold it, or if
it wraps at the lower end. -/
theorem zero_le_toInt_add_iff : 0 ≤ (a + b).toInt ↔
    (0 ≤ a.toInt + b.toInt ∧ a.toInt + b.toInt < 2 ^ 63) ∨ a.toInt + b.toInt < -2 ^ 63 := by
  have ha := a.le_toInt
  have hb := b.le_toInt
  have ha' := a.toInt_lt
  have hb' := b.toInt_lt
  by_cases hlow : a.toInt + b.toInt < -2 ^ 63
  · rw [toInt_add_of_lt hlow]
    omega
  · by_cases hhigh : 2 ^ 63 ≤ a.toInt + b.toInt
    · rw [toInt_add_of_le hhigh]
      omega
    · rw [toInt_add_eq (by omega) (by omega)]
      omega

end Sums

namespace Ref

def IsCell (row col : Int) : Prop := (0 ≤ row ∧ row < 2 ^ 63) ∧ 0 ≤ col ∧ col < 2 ^ 63

instance (row col : Int) : Decidable (IsCell row col) := inferInstanceAs (Decidable (_ ∧ _))

variable {origin r : Ref} {rows cols : Int64}

theorem shift?_eq_some_iff : origin.shift? rows cols = some r ↔
    r = ⟨origin.row + rows, origin.col + cols⟩ ∧
      0 ≤ (origin.row + rows).toInt ∧ 0 ≤ (origin.col + cols).toInt := by
  simp only [shift?, Int64.lt_iff_toInt_lt, Int64.toInt_zero]
  split
  · next h => simp only [reduceCtorEq, false_iff, not_and]; omega
  · next h => rw [Option.some_inj, eq_comm]; simp only [iff_self_and]; omega

/-- The cell at a distance is found exactly if it is in the grid, unless the row wraps at the lower
end. -/
theorem isSome_shift?_iff (hcol : 0 ≤ origin.col.toInt) : (origin.shift? rows cols).isSome ↔
    (IsCell (origin.row.toInt + rows.toInt) (origin.col.toInt + cols.toInt)) ∨
      origin.row.toInt + rows.toInt < -2 ^ 63 ∧
        0 ≤ origin.col.toInt + cols.toInt ∧ origin.col.toInt + cols.toInt < 2 ^ 63 := by
  have hcols := cols.le_toInt
  have hsome : (origin.shift? rows cols).isSome ↔
      0 ≤ (origin.row + rows).toInt ∧ 0 ≤ (origin.col + cols).toInt := by
    simp [Option.isSome_iff_exists, shift?_eq_some_iff]
  rw [hsome, zero_le_toInt_add_iff, zero_le_toInt_add_iff, IsCell]
  omega

/-- The coordinates of the cell at a distance are the exact sums, unless the row wraps at the lower
end. -/
theorem toInt_of_shift? (hcol : 0 ≤ origin.col.toInt) (h : origin.shift? rows cols = some r) :
    r.col.toInt = origin.col.toInt + cols.toInt ∧
      r.row.toInt = if origin.row.toInt + rows.toInt < -2 ^ 63
        then origin.row.toInt + rows.toInt + 2 ^ 64 else origin.row.toInt + rows.toInt := by
  obtain ⟨rfl, hrow, hcols⟩ := shift?_eq_some_iff.mp h
  have hleast := cols.le_toInt
  rw [zero_le_toInt_add_iff] at hrow hcols
  refine ⟨toInt_add_eq (by omega) (by omega), ?_⟩
  split
  · next hlow => exact toInt_add_of_lt hlow
  · next hlow => exact toInt_add_eq (by omega) (by omega)

end Ref

namespace Formula

/-- A text that is a relative reference with the given distances, each spelled in any way, and with
blanks around the words or not. -/
def IsOffset (rows cols : Int64) (input : Text) : Prop :=
  ∃ m n : Numeral, (m.Valid IsSigned ∧ m.value = rows) ∧ (n.Valid IsSigned ∧ n.value = cols) ∧
    Takes [ofString "r", m.word, ofString "c", n.word] input []

theorem readRelative_of_isOffset {context : Option Ref} {rows cols : Int64} {input : Text}
    (h : IsOffset rows cols input) :
    (Factor.readRelative context input).map (fun p => (p.1.refs.head?, p.2)) =
      (context.bind fun o => o.shift? rows cols).map fun r => (some r, []) := by
  obtain ⟨m, n, ⟨hm, rfl⟩, ⟨hn, rfl⟩, t, gap, rfl, ht, hgap⟩ := h
  have htokens : ∀ w ∈ [ofString "r", m.word, ofString "c", n.word], IsToken w := by
    simp only [List.mem_cons, List.not_mem_nil, or_false, forall_eq_or_imp, forall_eq]
    exact ⟨isToken_byte (by decide), hm.1.isToken, isToken_byte (by decide), hn.1.isToken⟩
  obtain ⟨rest, hread, hrest⟩ := readRelative_written context hm hn begins_nil ⟨ht, htokens⟩
  have htrim : Factor.readRelative context (t ++ ([] ++ gap)) = Factor.readRelative context t := by
    simp only [Factor.readRelative, readMark_eq_of_trim "r" (trim_append_gap hgap t),
      List.nil_append]
  rw [htrim, hread, hrest.nil_eq, Option.map_map]
  rfl

/-- The rule for relative cells matches what reads as a relative reference, and does nothing
else. -/
theorem exists_gives_relativeCell (fx : Effects) {P : Sheet → Prop} {context : Option Ref}
    (hcontext : ∀ s, P s → s.context = context) (input : Text) :
    ∃ result, Gives P ((grammar fx).parse .relativeCell input) result P ∧
      result.map (fun p => (p.1.attr.ref, p.2)) =
        (Factor.readRelative context input).map fun p => (p.1.refs.head?, p.2) := by
  obtain ⟨fuel, hfuel⟩ : ∃ fuel, (grammar fx).depth input = fuel + 2 :=
    ⟨(grammar fx).depth input - 2, by have := Sheet.le_depth fx input; omega⟩
  rw [Grammar.parse, hfuel]
  cases hread : Factor.readRelative context input with
  | none => exact ⟨none, gives_relative_none hcontext hread, rfl⟩
  | some p =>
    obtain ⟨f, rest⟩ := p
    obtain ⟨_, rows, _, _, cols, _, r, -, -, -, -, -, -, hf⟩ := Factor.readRelative_eq_some hread
    cases hf
    exact ⟨some _, gives_relative hcontext hread, rfl⟩

end Formula

namespace Sheet

variable {origin : Ref} {rows cols : Int64} {input : Text}

/-- What the rule for relative cells gives for a reference, on any sheet with the cell as
context. -/
theorem exists_parse_relativeCell (h : IsOffset rows cols input) (origin : Ref) (s : Sheet) :
    ∃ result t, Sheet.parse .relativeCell (some origin) input s = some (result, t) ∧
      result.map (fun p => (p.1.attr.ref, p.2)) =
        (origin.shift? rows cols).map fun r => (some r, []) := by
  obtain ⟨result, hgives, hresult⟩ := exists_gives_relativeCell effects
    (P := After { s with context := some origin } s.cells []) (fun _ hu => hu.context_eq) input
  obtain ⟨t, hparse, -⟩ := parse_of_gives (some origin) hgives
  exact ⟨result, t, hparse, hresult.trans (readRelative_of_isOffset h)⟩

/-- A match of a relative reference is what the exact sums say: there is one exactly if they are
those of a cell, and it takes all of the text and denotes this cell. -/
def IsExact (origin : Ref) (rows cols : Int64) (result : Option (Match Symbol Attribute)) : Prop :=
  (result.isSome ↔
    Ref.IsCell (origin.row.toInt + rows.toInt) (origin.col.toInt + cols.toInt)) ∧
  ∀ n rest, result = some (n, rest) → rest = [] ∧ ∃ r, n.attr.ref = some r ∧
    r.row.toInt = origin.row.toInt + rows.toInt ∧ r.col.toInt = origin.col.toInt + cols.toInt

/-- From a cell that can be assigned, a relative reference denotes the cell of the exact sums, and
is refused if there is none. The only exceptions are references from row -1 by the least distance of
all to a column of the grid. -/
theorem parse_relativeCell_exact_iff (hrow : -1 ≤ origin.row.toInt) (hcol : 0 ≤ origin.col.toInt)
    (hinput : IsOffset rows cols input) (s : Sheet) :
    ∃ result t, Sheet.parse .relativeCell (some origin) input s = some (result, t) ∧
      (IsExact origin rows cols result ↔
        ¬ (origin.row = -1 ∧ rows = Int64.minValue ∧
          0 ≤ origin.col.toInt + cols.toInt ∧ origin.col.toInt + cols.toInt < 2 ^ 63)) := by
  obtain ⟨result, t, hparse, hresult⟩ := exists_parse_relativeCell hinput origin s
  have hsome : result.isSome ↔ (origin.shift? rows cols).isSome := by
    rw [← Option.isSome_map (f := fun p => (p.1.attr.ref, p.2)), hresult, Option.isSome_map]
  have hmatch (n : Tree) (rest : Text) (h : result = some (n, rest)) :
      ∃ r, origin.shift? rows cols = some r ∧ n.attr.ref = some r ∧ rest = [] := by
    rw [h] at hresult
    obtain ⟨r, hr, heq⟩ := Option.map_eq_some_iff.mp hresult.symm
    simp only [Prod.mk.injEq] at heq
    exact ⟨r, hr, heq.1.symm, heq.2.symm⟩
  -- With the row at least -1, only one sum is below all words.
  have hwraps : origin.row = -1 ∧ rows = Int64.minValue ↔
      origin.row.toInt + rows.toInt < -2 ^ 63 := by
    have hleast := rows.le_toInt
    rw [← Int64.toInt_inj, ← Int64.toInt_inj, Int64.toInt_minValue,
      show (-1 : Int64).toInt = -1 from rfl]
    omega
  refine ⟨result, t, hparse, ?_⟩
  rw [IsExact, hsome, Ref.isSome_shift?_iff hcol, ← and_assoc (a := origin.row = -1), hwraps]
  constructor
  · rintro ⟨hexact, -⟩ hexception
    have hcell := hexact.mp (.inr hexception)
    have := hcell.1.1
    omega
  · intro hexception
    refine ⟨or_iff_left hexception, fun n rest h => ?_⟩
    obtain ⟨r, hr, hnode, hrest⟩ := hmatch n rest h
    obtain ⟨hrcol, hrrow⟩ := Ref.toInt_of_shift? hcol hr
    have hshift : (origin.shift? rows cols).isSome := by simp [hr]
    have hinside := ((Ref.isSome_shift?_iff hcol).mp hshift).resolve_right hexception
    rw [if_neg (by have := hinside.1.1; omega)] at hrrow
    exact ⟨hrest, r, hnode, hrrow, hrcol⟩

/-- The way from row -1 to the last row that can be numbered, spelled with a leading zero and
blanks. -/
theorem parse_relativeCell_exact_far :
    IsOffset Int64.maxValue (-3) (ofString "r 09223372036854775807c\t-03 ") ∧ ∃ n t,
      Sheet.parse .relativeCell (some ⟨-1, 3⟩) (ofString "r 09223372036854775807c\t-03 ") {} =
        some (some (n, []), t) ∧ n.attr.ref = some ⟨Int64.maxValue - 1, 0⟩ := by
  have hinput : IsOffset Int64.maxValue (-3) (ofString "r 09223372036854775807c\t-03 ") := by
    have hrows : IsRun isDigit (ofString "09223372036854775807") := ⟨by decide, by decide +kernel⟩
    have hcols : IsRun isDigit (ofString "03") := ⟨by decide, by decide +kernel⟩
    refine ⟨⟨ofString "09223372036854775807", Int64.maxValue⟩, ⟨ofString "-03", -3⟩,
      ⟨⟨.inl hrows, by decide +kernel⟩, rfl⟩, ⟨⟨.inr ⟨_, rfl, hcols⟩, by decide +kernel⟩, rfl⟩,
      _, ofString " ", by decide +kernel,
      Spaced.of_gaps [([], ofString "r"), ([.char ' '], ofString "09223372036854775807"),
        ([], ofString "c"), ([.char '\t'], ofString "-03")] (by decide), .of_mem_blanks (by decide)⟩
  obtain ⟨result, t, hparse, hiff⟩ := parse_relativeCell_exact_iff
    (show -1 ≤ (⟨-1, 3⟩ : Ref).row.toInt by decide) (by decide) hinput {}
  obtain ⟨hsome, hmatch⟩ := hiff.mpr (by decide)
  obtain ⟨⟨n, rest⟩, hresult⟩ := Option.isSome_iff_exists.mp (hsome.mpr (by decide))
  obtain ⟨rfl, r, hr, hrow, hcol⟩ := hmatch n rest hresult
  have hlast : r.row = Int64.maxValue - 1 := Int64.toInt_inj.mp (hrow.trans (by decide))
  have hfirst : r.col = 0 := Int64.toInt_inj.mp (hcol.trans (by decide))
  refine ⟨hinput, n, t, by rw [hparse, hresult], ?_⟩
  rw [hr, ← hlast, ← hfirst]

/-- The least distance leads from row -1, which is that of the target `A0`, to the last row of
all. -/
theorem parse_relativeCell_wraps : Ref.parse (ofString "A0") = .ok ⟨-1, 0⟩ ∧
    ∃ n t, Sheet.parse .relativeCell (some ⟨-1, 0⟩) (ofString "r-9223372036854775808c0") {} =
        some (some (n, []), t) ∧ n.attr.ref = some ⟨Int64.maxValue, 0⟩ ∧
      ¬ IsExact ⟨-1, 0⟩ Int64.minValue 0 (some (n, [])) := by
  have hparse : (Sheet.parse .relativeCell (some ⟨-1, 0⟩) (ofString "r-9223372036854775808c0") {}).map
      (fun p => p.1.map fun m => (m.1.attr.ref, m.2)) =
      some (some (some ⟨Int64.maxValue, 0⟩, [])) := by decide +kernel
  obtain ⟨⟨result, t⟩, hrun, hresult⟩ := Option.map_eq_some_iff.mp hparse
  obtain ⟨⟨n, rest⟩, rfl, hnode⟩ := Option.map_eq_some_iff.mp hresult
  obtain ⟨hr, rfl⟩ := Prod.mk.inj hnode
  refine ⟨by decide +kernel, n, t, hrun, hr, fun hexact => ?_⟩
  exact absurd (hexact.1.mp rfl) (by decide)

end Sheet

end Spreadsheet
