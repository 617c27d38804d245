import Spreadsheet.Ref.Column
import Spreadsheet.Proofs.Word

/-! # Column labels as numerals

A label is read without overflow as the bijective base-26 numeral that it is, and the numeral of
what it denotes is the label again. Words end before numerals do: the eight last columns have no
label that can be read.
-/
namespace Spreadsheet.Column

def extend (n : Nat) (b : UInt8) : Nat := n * 26 + (b.toNat - 0x41) + 1

/-- The number that letters denote after those that denote `n`. -/
def valueFrom (n : Nat) (letters : Text) : Nat := letters.foldl extend n

theorem letter_bounds {b : UInt8} (hb : Text.isUpper b) : 0x41 ≤ b.toNat ∧ b.toNat ≤ 0x5A := by
  simp only [Text.isUpper, Bool.and_eq_true, decide_eq_true_eq, UInt8.le_iff_toNat_le] at hb
  exact hb

theorem numeral_extend (n : Nat) {b : UInt8} (hb : Text.isUpper b) :
    numeral (extend n b) = numeral n ++ [b] := by
  have hbounds := letter_bounds hb
  have hdiv : (n * 26 + (b.toNat - 0x41)) / 26 = n := by omega
  have hletter : 0x41 + (n * 26 + (b.toNat - 0x41)) % 26 = b.toNat := by omega
  rw [extend, numeral, hdiv, hletter]
  simp

theorem numeral_valueFrom (n : Nat) {letters : Text} (h : ∀ b ∈ letters, Text.isUpper b) :
    numeral (valueFrom n letters) = numeral n ++ letters := by
  induction letters generalizing n with
  | nil => simp [valueFrom]
  | cons b r ih =>
    have htail := ih (extend n b) fun x hx => h x (List.mem_cons_of_mem b hx)
    rw [numeral_extend n (h b List.mem_cons_self), List.append_assoc] at htail
    exact htail

theorem le_valueFrom (n : Nat) (letters : Text) : n ≤ valueFrom n letters := by
  induction letters generalizing n with
  | nil => exact Nat.le_refl n
  | cons b r ih => exact Nat.le_trans (by simp only [extend]; omega) (ih (extend n b))

/-- A letter is taken into a number and nothing wraps around on the way. -/
structure ExactStep (n : Int64) (b : UInt8) : Prop where
  digit : (Int64.ofNat (b.toNat - 0x41)).toInt = b.toNat - 0x41
  product : (n * 26).toInt = n.toInt * 26
  sum : (n * 26 + Int64.ofNat (b.toNat - 0x41)).toInt = n.toInt * 26 + (b.toNat - 0x41)
  next : (n * 26 + Int64.ofNat (b.toNat - 0x41) + 1).toInt = n.toInt * 26 + (b.toNat - 0x41) + 1

theorem limit_lt_iff {n : Int64} : limit < n ↔ 354745078340568299 < n.toInt := by
  rw [Int64.lt_iff_toInt_lt, show limit.toInt = 354745078340568299 by decide]

/-- One more letter fits a word below the limit. -/
theorem exactStep {n : Int64} {b : UInt8} (hn : 0 ≤ n.toInt) (hlimit : ¬ limit < n)
    (hb : Text.isUpper b) : ExactStep n b := by
  have hbounds := letter_bounds hb
  rw [limit_lt_iff] at hlimit
  have hdigit : (Int64.ofNat (b.toNat - 0x41)).toInt = b.toNat - 0x41 := by
    rw [Int64.toInt_ofNat_of_lt (by omega)]
    omega
  have hproduct : (n * 26).toInt = n.toInt * 26 := by
    rw [Int64.toInt_mul]
    exact Int.bmod_eq_of_le (by simp; omega) (by simp; omega)
  have hsum : (n * 26 + Int64.ofNat (b.toNat - 0x41)).toInt = n.toInt * 26 + (b.toNat - 0x41) := by
    rw [toInt_add_eq] <;> rw [hproduct, hdigit] <;> omega
  have hnext : (n * 26 + Int64.ofNat (b.toNat - 0x41) + 1).toInt =
      n.toInt * 26 + (b.toNat - 0x41) + 1 := by
    rw [toInt_add_one] <;> rw [hsum]
    omega
  exact ⟨hdigit, hproduct, hsum, hnext⟩

theorem toInt_extend {n : Int64} {b : UInt8} (hn : 0 ≤ n.toInt) (hlimit : ¬ limit < n)
    (hb : Text.isUpper b) :
    (n * 26 + Int64.ofNat (b.toNat - 0x41) + 1).toInt = extend n.toInt.toNat b := by
  have hbounds := letter_bounds hb
  rw [(exactStep hn hlimit hb).next, extend]
  omega

/-- Letters are read as the number that they denote, without wrapping around. -/
theorem readFrom_eq_ok {name letters : Text} {n v : Int64} (hn : 0 ≤ n.toInt)
    (h : readFrom name n letters = .ok v) :
    (∀ b ∈ letters, Text.isUpper b) ∧ v.toInt = valueFrom n.toInt.toNat letters := by
  induction letters generalizing n with
  | nil =>
    cases h
    exact ⟨by simp, (Int.toNat_of_nonneg hn).symm⟩
  | cons b r ih =>
    rw [readFrom] at h
    split at h
    · cases h
    · next hupper =>
      split at h
      · cases h
      · next hlimit =>
        have hb : Text.isUpper b := by simpa using hupper
        have hnext := toInt_extend hn hlimit hb
        obtain ⟨hr, hv⟩ := ih (by omega) h
        rw [hnext, Int.toNat_natCast] at hv
        exact ⟨by simpa [hb] using hr, hv⟩

/-- The guard lets a letter pass exactly if the longer numeral is not too large. -/
theorem limit_lt_iff_extend {n : Int64} {b : UInt8} (hn : 0 ≤ n.toInt) (hb : Text.isUpper b) :
    limit < n ↔ 9223372036854775800 < extend n.toInt.toNat b := by
  have hbounds := letter_bounds hb
  rw [limit_lt_iff, extend]
  omega

/-- Letters are read if their number is not too large. -/
theorem exists_readFrom (name : Text) {letters : Text} {n : Int64} (hn : 0 ≤ n.toInt)
    (hletters : ∀ b ∈ letters, Text.isUpper b)
    (hle : valueFrom n.toInt.toNat letters ≤ 9223372036854775800) :
    ∃ v, readFrom name n letters = .ok v := by
  induction letters generalizing n with
  | nil => exact ⟨n, rfl⟩
  | cons b r ih =>
    obtain ⟨hb, hr⟩ := List.forall_mem_cons.mp hletters
    have hlimit : ¬ limit < n := by
      rw [limit_lt_iff_extend hn hb, Nat.not_lt]
      exact (le_valueFrom _ r).trans hle
    have hnext := toInt_extend hn hlimit hb
    rw [readFrom, if_neg (by simp [hb]), if_neg hlimit]
    apply ih (by omega) hr
    rwa [hnext, Int.toNat_natCast]

/-- Letters whose number is too large are refused at the first one that is too much. -/
theorem readFrom_eq_overflow (name : Text) {letters : Text} {n : Int64} (hn : 0 ≤ n.toInt)
    (hletters : ∀ b ∈ letters, Text.isUpper b) (hle : n.toInt ≤ 9223372036854775800)
    (hlt : 9223372036854775800 < valueFrom n.toInt.toNat letters) :
    readFrom name n letters = .error (.overflow name) := by
  induction letters generalizing n with
  | nil =>
    simp only [valueFrom, List.foldl_nil] at hlt
    omega
  | cons b r ih =>
    obtain ⟨hb, hr⟩ := List.forall_mem_cons.mp hletters
    rw [readFrom, if_neg (by simp [hb])]
    by_cases hlimit : limit < n
    · rw [if_pos hlimit]
    · have hnext := toInt_extend hn hlimit hb
      rw [limit_lt_iff_extend hn hb] at hlimit
      rw [if_neg (by rwa [limit_lt_iff_extend hn hb])]
      apply ih (by omega) hr (by omega)
      rwa [hnext, Int.toNat_natCast]

theorem valueFrom_pos {l : Text} (hne : l ≠ []) : 1 ≤ valueFrom 0 l := by
  obtain ⟨b, r, rfl⟩ := List.exists_cons_of_ne_nil hne
  exact Nat.le_trans (by simp only [extend]; omega) (le_valueFrom (extend 0 b) r)

theorem ofLabel_of_ne_nil {l : Text} (hne : l ≠ []) :
    ofLabel l = (readFrom l 0 l).map (· - 1) := by
  obtain ⟨b, r, rfl⟩ := List.exists_cons_of_ne_nil hne
  rfl

/-- The last step back from a number to a column does not wrap around either. -/
theorem toInt_pred_of_readFrom {name l : Text} {v : Int64} (h : readFrom name 0 l = .ok v) :
    (v - 1).toInt = v.toInt - 1 := by
  obtain ⟨-, hv⟩ := readFrom_eq_ok (by decide) h
  exact toInt_sub_one (by omega)

/-- A label is a numeral that is not too large, and its column is the number before. -/
theorem ofLabel_eq_ok_iff {l : Text} {c : Int64} : ofLabel l = .ok c ↔
    l ≠ [] ∧ (∀ b ∈ l, Text.isUpper b) ∧ valueFrom 0 l ≤ 9223372036854775800 ∧
      c.toInt = valueFrom 0 l - 1 := by
  by_cases hne : l = []
  · subst hne
    simp [ofLabel]
  · rw [ofLabel_of_ne_nil hne]
    constructor
    · intro h
      cases hread : readFrom l 0 l with
      | error e =>
        rw [hread] at h
        cases h
      | ok v =>
        rw [hread] at h
        obtain rfl : v - 1 = c := Except.ok.inj h
        obtain ⟨hletters, hv⟩ := readFrom_eq_ok (by decide) hread
        refine ⟨hne, hletters, ?_, by rw [toInt_pred_of_readFrom hread, hv]; rfl⟩
        by_contra hlt
        have hoverflow := readFrom_eq_overflow l (n := 0) (by decide) hletters (by decide)
          (Nat.not_le.mp hlt)
        cases hoverflow.symm.trans hread
    · rintro ⟨-, hletters, hle, hc⟩
      obtain ⟨v, hread⟩ := exists_readFrom l (n := 0) (by decide) hletters hle
      obtain ⟨-, hv⟩ := readFrom_eq_ok (by decide) hread
      have heq : v - 1 = c := by
        rw [← Int64.toInt_inj, toInt_pred_of_readFrom hread, hv, hc]
        rfl
      rw [hread, ← heq]
      rfl

theorem label_of_neg {c : Int64} (hc : c.toInt < 0) : label c = [Text.byte '?'] := by
  rw [label, if_pos (by rwa [Int64.lt_iff_toInt_lt])]

theorem label_of_nonneg {c : Int64} (hc : 0 ≤ c.toInt) : label c = numeral (c + 1).toInt.toNat := by
  rw [label, if_neg (not_neg_of_toInt hc)]

/-- The column of a label is not negative, and it has that label. -/
theorem label_of_ofLabel {l : Text} {c : Int64} (h : ofLabel l = .ok c) :
    0 ≤ c.toInt ∧ label c = l := by
  obtain ⟨hne, hletters, hle, hc⟩ := ofLabel_eq_ok_iff.mp h
  have hpos := valueFrom_pos hne
  have hnext : (c + 1).toInt = valueFrom 0 l := by
    rw [toInt_add_one (by omega), hc]
    omega
  refine ⟨by omega, ?_⟩
  rw [label_of_nonneg (by omega), hnext, Int.toNat_natCast, numeral_valueFrom 0 hletters, numeral,
    List.nil_append]

theorem isUpper_of_mem_numeral {n : Nat} : ∀ b ∈ numeral n, Text.isUpper b := by
  fun_induction numeral n with
  | case1 => simp
  | case2 n ih =>
    intro b hb
    rcases List.mem_append.mp hb with hb | hb
    · exact ih b hb
    · obtain rfl := List.mem_singleton.mp hb
      simp only [Text.isUpper, Bool.and_eq_true, decide_eq_true_eq, UInt8.le_iff_toNat_le,
        Nat.toUInt8, UInt8.toNat_ofNat', UInt8.toNat_ofNat]
      omega

theorem valueFrom_numeral (n : Nat) : valueFrom 0 (numeral n) = n := by
  fun_induction numeral n with
  | case1 => rfl
  | case2 n ih =>
    rw [valueFrom] at ih ⊢
    rw [List.foldl_append, ih, List.foldl_cons, List.foldl_nil, extend, Nat.toUInt8,
      UInt8.toNat_ofNat']
    omega

theorem numeral_ne_nil {n : Nat} (hn : n ≠ 0) : numeral n ≠ [] := by
  obtain ⟨m, rfl⟩ := Nat.exists_eq_succ_of_ne_zero hn
  rw [numeral]
  simp

/-- What comes of reading the label of a column again. -/
theorem ofLabel_label (c : Int64) : ofLabel (label c) =
    if c.toInt < 0 then .error (.notLetters [Text.byte '?'])
    else if c.toInt ≤ 9223372036854775799 then .ok c
    else if c = Int64.maxValue then .error .empty
    else .error (.overflow (label c)) := by
  by_cases hneg : c.toInt < 0
  · rw [if_pos hneg, label_of_neg hneg]
    rfl
  · rw [if_neg hneg]
    have hlabel : label c = numeral (c + 1).toInt.toNat := label_of_nonneg (by omega)
    rcases lt_or_eq_maxValue c with hlt | rfl
    · have hmax : c ≠ Int64.maxValue := by
        rintro rfl
        exact absurd hlt (by decide)
      have hnext := toInt_add_one hlt
      have hvalue : valueFrom 0 (label c) = (c.toInt + 1).toNat := by
        rw [hlabel, valueFrom_numeral, hnext]
      have hne : label c ≠ [] := by
        rw [hlabel]
        exact numeral_ne_nil (by omega)
      have hletters : ∀ b ∈ label c, Text.isUpper b := by
        rw [hlabel]
        exact isUpper_of_mem_numeral
      by_cases hle : c.toInt ≤ 9223372036854775799
      · rw [if_pos hle, ofLabel_eq_ok_iff]
        exact ⟨hne, hletters, by omega, by omega⟩
      · have hoverflow := readFrom_eq_overflow (label c) (n := 0) (by decide) hletters (by decide)
          (by change _ < valueFrom 0 (label c); omega)
        rw [if_neg hle, if_neg hmax, ofLabel_of_ne_nil hne, hoverflow]
        rfl
    · have hwrap : (Int64.maxValue + 1).toInt.toNat = 0 := by decide
      rw [hlabel, hwrap, numeral, if_neg (by decide), if_pos rfl]
      rfl

theorem ofLabel_label_eq_ok_iff {c d : Int64} : ofLabel (label c) = .ok d ↔
    d = c ∧ 0 ≤ c.toInt ∧ c.toInt ≤ 9223372036854775799 := by
  rw [ofLabel_label]
  split_ifs with hneg hle hmax
  · exact iff_of_false nofun (by omega)
  · rw [Except.ok.injEq, eq_comm]
    exact (and_iff_left ⟨by omega, hle⟩).symm
  · exact iff_of_false nofun (by omega)
  · exact iff_of_false nofun (by omega)

/-- Labels and columns correspond up to the last column that has a label. Up to there a column is
read back from its label, and after it none is. The labels are the numerals up to a largest one,
each is the label of its column, and nothing wraps around while they are read. -/
theorem label_bijective :
    (∀ c : Int64, ofLabel (label c) =
      if c.toInt < 0 then .error (.notLetters [Text.byte '?'])
      else if c.toInt ≤ 9223372036854775799 then .ok c
      else if c = Int64.maxValue then .error .empty
      else .error (.overflow (label c))) ∧
    (∀ l : Text, (∃ c, ofLabel l = .ok c) ↔
      l ≠ [] ∧ (∀ b ∈ l, Text.isUpper b) ∧ valueFrom 0 l ≤ 9223372036854775800) ∧
    (∀ l c, ofLabel l = .ok c → label c = l ∧ c.toInt = valueFrom 0 l - 1) ∧
    (∀ l before b after n, l = before ++ b :: after → readFrom l 0 before = .ok n →
      Text.isUpper b → ¬ limit < n → ExactStep n b) ∧
    ∀ l n, readFrom l 0 l = .ok n → (n - 1).toInt = n.toInt - 1 := by
  refine ⟨ofLabel_label, fun l => ?_, fun l c h => ?_, ?_, fun l n => toInt_pred_of_readFrom⟩
  · constructor
    · rintro ⟨c, h⟩
      obtain ⟨hne, hletters, hle, -⟩ := ofLabel_eq_ok_iff.mp h
      exact ⟨hne, hletters, hle⟩
    · rintro ⟨hne, hletters, hle⟩
      refine ⟨Int64.ofInt (valueFrom 0 l - 1), ofLabel_eq_ok_iff.mpr ⟨hne, hletters, hle, ?_⟩⟩
      have hpos := valueFrom_pos hne
      exact Int64.toInt_ofInt_of_le (by omega) (by omega)
  · exact ⟨(label_of_ofLabel h).2, (ofLabel_eq_ok_iff.mp h).2.2.2⟩
  · intro l before b after n _ hread hb hlimit
    obtain ⟨-, hn⟩ := readFrom_eq_ok (by decide) hread
    exact exactStep (by omega) hlimit hb

end Spreadsheet.Column
