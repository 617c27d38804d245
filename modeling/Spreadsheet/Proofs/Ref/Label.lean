import Spreadsheet.Proofs.Ref.Column
import Spreadsheet.Proofs.Sheet.Execution
import Spreadsheet.Proofs.Text.Decimal

/-! # Labels of cells

A cell has a label that is read as the cell, unless it is in one of the last columns or outside of
the rows that can be numbered. There are two readers of labels, one for names alone and one among
the rules of the grammar, and they agree on every text.
-/
namespace Spreadsheet

open Formula Grammar Text

section Names

theorem Decimal.isRun_ofInt64 {i : Int64} (hi : 0 ≤ i.toInt) : IsRun isDigit (Decimal.ofInt64 i) := by
  rw [Decimal.ofInt64, ← Int.toNat_of_nonneg hi]
  exact ⟨Decimal.ofNat_ne_nil, Decimal.isDigit_of_mem_ofNat⟩

theorem Decimal.minus_mem_ofInt64 {i : Int64} (hi : i.toInt < 0) : byte '-' ∈ Decimal.ofInt64 i := by
  rw [Decimal.ofInt64]
  cases h : i.toInt with
  | ofNat n => simp [h, Int.not_lt_of_ge (Int.natCast_nonneg n)] at hi
  | negSucc n => exact List.mem_cons_self

theorem Ref.ofLabel_eq_ok_iff {label : Text} {number : Int64} {r : Ref} :
    Ref.ofLabel label number = .ok r ↔ Column.ofLabel label = .ok r.col ∧ r.row + 1 = number := by
  rw [Ref.ofLabel]
  cases Column.ofLabel label with
  | error e => exact iff_of_false nofun nofun
  | ok col =>
    obtain ⟨row, col'⟩ := r
    simp only [Except.map, Except.ok.injEq, Ref.mk.injEq]
    constructor
    · rintro ⟨rfl, rfl⟩
      exact ⟨rfl, Int64.sub_add_cancel number 1⟩
    · rintro ⟨rfl, rfl⟩
      exact ⟨Int64.add_sub_cancel row 1, rfl⟩

def Ref.address (r : Ref) : Address :=
  ⟨Column.label r.col, ⟨Decimal.ofInt64 (r.row + 1), r.row + 1⟩, r⟩

theorem Ref.words_address (r : Ref) : r.address.words.flatten = r.label := by
  simp [Ref.address, Address.words, Ref.label]

namespace Formula.Address

variable {a : Address}

theorem Valid.nonneg (h : a.Valid) : 0 ≤ a.number.value.toInt := by
  rw [Decimal.toInt_of_read h.2.1.1.1 h.2.1.1.2 h.2.1.2]
  exact Int.natCast_nonneg _

/-- The label of the cell of an address has the same letters. -/
theorem Valid.label_ref (h : a.Valid) : a.ref.label = a.label ++ Decimal.ofInt64 a.number.value := by
  obtain ⟨hcol, hrow⟩ := Ref.ofLabel_eq_ok_iff.mp h.2.2
  rw [Ref.label, (Column.label_of_ofLabel hcol).2, hrow]

/-- A cell that can be addressed at all can be addressed by its label. -/
theorem Valid.address_ref (h : a.Valid) : a.ref.address.Valid := by
  obtain ⟨hcol, hrow⟩ := Ref.ofLabel_eq_ok_iff.mp h.2.2
  rw [Ref.address, (Column.label_of_ofLabel hcol).2, hrow]
  exact ⟨h.1, ⟨Decimal.isRun_ofInt64 h.nonneg, Decimal.read_ofInt64 _⟩, h.2.2⟩

end Formula.Address

end Names

section Readers

/-- Letters and digits can be told apart. -/
theorem Text.split_letters {letters digits : Text} (hletters : ∀ b ∈ letters, isUpper b)
    (hdigits : ∀ b ∈ digits, isDigit b) :
    (letters ++ digits).takeWhile isUpper = letters ∧
      (letters ++ digits).dropWhile isUpper = digits := by
  rw [List.takeWhile_append_of_pos hletters, List.dropWhile_append_of_pos hletters]
  cases digits with
  | nil => simp
  | cons b r =>
    have hb : isUpper b = false := isUpper_of_isDigit (hdigits b List.mem_cons_self)
    simp [hb]

/-- A name is read exactly if it consists of the words of an address. -/
theorem Ref.parse_eq_ok_iff {name : Text} {r : Ref} :
    Ref.parse name = .ok r ↔ ∃ a : Address, a.Valid ∧ a.words.flatten = name ∧ a.ref = r := by
  constructor
  · intro h
    rw [Ref.parse] at h
    split at h
    · cases h
    · next hwords =>
      simp only [Bool.or_eq_true, List.isEmpty_iff, Bool.not_eq_eq_eq_not, Bool.not_true,
        not_or, Bool.not_eq_false, List.all_eq_true] at hwords
      obtain ⟨⟨hletters, hdigits⟩, hall⟩ := hwords
      split at h
      · cases h
      · next number hread =>
        cases href : Ref.ofLabel (name.takeWhile isUpper) number with
        | error e =>
          rw [href] at h
          cases h
        | ok x =>
          rw [href] at h
          cases h
          exact ⟨⟨name.takeWhile isUpper, ⟨name.dropWhile isUpper, number⟩, r⟩,
            ⟨isRun_takeWhile hletters, ⟨⟨hdigits, hall⟩, hread⟩, href⟩, by simp [Address.words], rfl⟩
  · rintro ⟨a, ⟨hlabel, ⟨hdigits, hnumber⟩, href⟩, rfl, rfl⟩
    obtain ⟨htake, hdrop⟩ := Text.split_letters hlabel.2 hdigits.2
    have hwords : a.words.flatten = a.label ++ a.number.word := by simp [Address.words]
    rw [hwords, Ref.parse, htake, hdrop, if_neg, hnumber]
    · simp only [href]
      rfl
    · simpa [hlabel.1, hdigits.1] using hdigits.2

theorem Formula.Address.read_words {a : Address} (ha : a.Valid) :
    Address.read a.words.flatten = some (a, []) := by
  have hwritten := written_flatten (Address.isToken_words ha)
  rw [← List.append_nil a.words] at hwritten
  obtain ⟨rest, hread, hrest⟩ := address_completes ha begins_nil hwritten
  rw [hrest.nil_eq, List.append_nil] at hread
  exact hread

/-- The rule for absolute cells matches what reads as an address, on any sheet and in any
context. -/
theorem Sheet.parse_absoluteCell (context : Option Ref) (name : Text) (s : Sheet) :
    ∃ t, Sheet.parse .absoluteCell context name s =
      some ((Address.read name).map fun p => (p.1.tree, p.2), t) := by
  obtain ⟨fuel, hfuel⟩ : ∃ fuel, (grammar effects).depth name = fuel + 3 :=
    ⟨(grammar effects).depth name - 3, by have := le_depth effects name; omega⟩
  have hgives : Gives (After { s with context := context.or s.context } s.cells [])
      ((grammar effects).parse .absoluteCell name)
      ((Address.read name).map fun p => (p.1.tree, p.2))
      (After { s with context := context.or s.context } s.cells []) := by
    rw [Grammar.parse, hfuel]
    cases hread : Address.read name with
    | none => exact gives_address_none (fun t message ht => ht.debug message) hread
    | some p => exact gives_address hread
  obtain ⟨t, hparse, -⟩ := parse_of_gives context hgives
  exact ⟨t, hparse⟩

/-- A name is read exactly if it reads as an address without anything else in it. -/
theorem Ref.parse_eq_ok_iff_read {name : Text} {r : Ref} : Ref.parse name = .ok r ↔
    ∃ a rest, Address.read name = some (a, rest) ∧ a.words.flatten = name ∧ a.ref = r := by
  rw [Ref.parse_eq_ok_iff]
  constructor
  · rintro ⟨a, ha, rfl, rfl⟩
    exact ⟨a, [], Address.read_words ha, rfl, rfl⟩
  · rintro ⟨a, rest, hread, hname, hr⟩
    exact ⟨a, Address.valid_of_read hread, hname, hr⟩

end Readers

section Labels

variable {r x : Ref}

/-- The label of a cell that has been read from a name is the name, less leading zeros. -/
theorem Ref.label_of_parse {name : Text} (h : Ref.parse name = .ok r) :
    r.label = name.takeWhile isUpper ++ Decimal.withoutZeros (name.dropWhile isUpper) := by
  obtain ⟨a, ha, rfl, rfl⟩ := Ref.parse_eq_ok_iff.mp h
  obtain ⟨hlabel, ⟨⟨hne, hdigits⟩, hnumber⟩, -⟩ := id ha
  obtain ⟨htake, hdrop⟩ := Text.split_letters hlabel.2 hdigits
  have hwords : a.words.flatten = a.label ++ a.number.word := by simp [Address.words]
  have hwritten : Decimal.ofInt64 a.number.value = Decimal.withoutZeros a.number.word := by
    rw [Decimal.ofInt64, Decimal.toInt_of_read hne hdigits hnumber]
    exact Decimal.ofNat_digitsValue hne hdigits
  rw [hwords, htake, hdrop, ha.label_ref, hwritten]

theorem Ref.address_valid_iff : r.address.Valid ↔
    (-1 ≤ r.row.toInt ∧ r.row.toInt ≤ 2 ^ 63 - 2) ∧
      0 ≤ r.col.toInt ∧ r.col.toInt ≤ 9223372036854775799 := by
  constructor
  · intro h
    obtain ⟨hcol, -⟩ := Ref.ofLabel_eq_ok_iff.mp h.2.2
    refine ⟨?_, (Column.ofLabel_label_eq_ok_iff.mp hcol).2⟩
    have hnonneg : 0 ≤ (r.row + 1).toInt := h.nonneg
    rcases lt_or_eq_maxValue r.row with hlt | hmax
    · rw [toInt_add_one hlt] at hnonneg
      omega
    · rw [hmax] at hnonneg
      exact absurd hnonneg (by decide)
  · rintro ⟨hrow, hcol⟩
    have hread : Column.ofLabel (Column.label r.col) = .ok r.col :=
      Column.ofLabel_label_eq_ok_iff.mpr ⟨rfl, hcol⟩
    have hnext := toInt_add_one (a := r.row) (by omega)
    obtain ⟨hne, hletters, -⟩ := Column.ofLabel_eq_ok_iff.mp hread
    exact ⟨⟨hne, hletters⟩, ⟨Decimal.isRun_ofInt64 (by omega), Decimal.read_ofInt64 _⟩,
      Ref.ofLabel_eq_ok_iff.mpr ⟨hread, rfl⟩⟩

/-- A label that consists of letters and digits alone has the words of one address only. -/
theorem Ref.words_of_label {a : Address} (ha : a.Valid) (hwords : a.words.flatten = r.label) :
    a.label = Column.label r.col ∧ a.number.word = Decimal.ofInt64 (r.row + 1) := by
  have hsplit : a.label ++ a.number.word = r.label := by simpa [Address.words] using hwords
  have hclass : ∀ b ∈ r.label, isUpper b ∨ isDigit b := by
    intro b hb
    rw [← hsplit, List.mem_append] at hb
    exact hb.imp (ha.1.2 b) (ha.2.1.1.2 b)
  have hcol : 0 ≤ r.col.toInt := by
    by_contra hneg
    have hmark : byte '?' ∈ r.label := by simp [Ref.label, Column.label_of_neg (Int.not_le.mp hneg)]
    exact absurd (hclass _ hmark) (by decide)
  have hrow : 0 ≤ (r.row + 1).toInt := by
    by_contra hneg
    have hmark : byte '-' ∈ r.label :=
      List.mem_append_right _ (Decimal.minus_mem_ofInt64 (Int.not_le.mp hneg))
    exact absurd (hclass _ hmark) (by decide)
  have hletters : ∀ b ∈ Column.label r.col, isUpper b := by
    rw [Column.label_of_nonneg hcol]
    exact Column.isUpper_of_mem_numeral
  obtain ⟨htake, hdrop⟩ := Text.split_letters hletters (Decimal.isRun_ofInt64 hrow).2
  obtain ⟨htake', hdrop'⟩ := Text.split_letters ha.1.2 ha.2.1.1.2
  rw [hsplit] at htake' hdrop'
  exact ⟨htake'.symm.trans htake, hdrop'.symm.trans hdrop⟩

/-- A label that can be read at all is read as its cell. -/
theorem Ref.parse_label_eq_ok_iff : Ref.parse r.label = .ok x ↔ x = r ∧ r.address.Valid := by
  rw [Ref.parse_eq_ok_iff]
  constructor
  · rintro ⟨a, ha, hwords, rfl⟩
    obtain ⟨hlabel, hword⟩ := Ref.words_of_label ha hwords
    obtain ⟨hcol, hrow⟩ := Ref.ofLabel_eq_ok_iff.mp ha.2.2
    rw [hlabel, Column.ofLabel_label_eq_ok_iff] at hcol
    have hnumber : r.row + 1 = a.number.value := by
      have hread := ha.2.1.2
      rw [hword, Decimal.read_ofInt64] at hread
      exact Except.ok.inj hread
    have hsame : a.ref.row = r.row := by
      rw [← Int64.add_sub_cancel a.ref.row 1, hrow, ← hnumber, Int64.add_sub_cancel]
    have href : a.ref = r := congrArg₂ Ref.mk hsame hcol.1
    exact ⟨href, href ▸ ha.address_ref⟩
  · rintro ⟨rfl, h⟩
    exact ⟨x.address, h, x.words_address, rfl⟩

end Labels

/-- Labels are read as the cells that they are written for, up to the ends of the grid. The reader
of names and the rule for absolute cells accept the same names as the same cells, and the label of
the cell is the name less the leading zeros of its number. -/
theorem Ref.parse_label_agrees :
    (∀ r x : Ref, Ref.parse r.label = .ok x ↔
      x = r ∧ (-1 ≤ r.row.toInt ∧ r.row.toInt ≤ 2 ^ 63 - 2) ∧
        0 ≤ r.col.toInt ∧ r.col.toInt ≤ 9223372036854775799) ∧
    ∀ (name : Text) (context : Option Ref) (s : Sheet), ∃ result t,
      Sheet.parse .absoluteCell context name s = some (result, t) ∧
      (∀ r, Ref.parse name = .ok r ↔
        ∃ n rest, result = some (n, rest) ∧ n.text = name ∧ n.attr.ref = some r) ∧
      (∀ n rest, result = some (n, rest) → n.attr.ref.isSome) ∧
      ∀ r, Ref.parse name = .ok r →
        r.label = name.takeWhile isUpper ++ Decimal.withoutZeros (name.dropWhile isUpper) := by
  refine ⟨fun r x => ?_, fun name context s => ?_⟩
  · rw [Ref.parse_label_eq_ok_iff, Ref.address_valid_iff]
  · obtain ⟨t, hparse⟩ := Sheet.parse_absoluteCell context name s
    refine ⟨_, t, hparse, fun r => ?_, fun n rest hresult => ?_, fun r => Ref.label_of_parse⟩
    · rw [Ref.parse_eq_ok_iff_read]
      constructor
      · rintro ⟨a, rest, hread, hname, rfl⟩
        exact ⟨a.tree, rest, by rw [hread]; rfl, a.tree_text.trans hname, rfl⟩
      · rintro ⟨n, rest, hresult, hname, href⟩
        obtain ⟨p, hread, hp⟩ := Option.map_eq_some_iff.mp hresult
        cases hp
        exact ⟨p.1, p.2, hread, p.1.tree_text.symm.trans hname, Option.some.inj href⟩
    · obtain ⟨p, -, hp⟩ := Option.map_eq_some_iff.mp hresult
      cases hp
      rfl

end Spreadsheet
