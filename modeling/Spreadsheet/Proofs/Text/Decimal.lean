import Spreadsheet.Text.Decimal
import Mathlib.Data.List.Induction

/-! # Decimal numbers read back

The digits written for a number have that number as their value, so every 64-bit integer is what its
decimal text reads as. Digits that are read are written again without their leading zeros.
-/
namespace Spreadsheet.Decimal

variable {n : Nat}

theorem toNat_byte_of_isDigit {c : Char} (hc : c.isDigit) : (Text.byte c).toNat = c.toNat := by
  have hle : c.toNat ≤ 57 := by
    simp only [Char.isDigit, Bool.and_eq_true, decide_eq_true_eq, UInt32.le_iff_toNat_le] at hc
    exact hc.2
  simp only [Text.byte, Nat.toUInt8, UInt8.toNat_ofNat']
  omega

theorem isDigit_byte {c : Char} (hc : c.isDigit) : Text.isDigit (Text.byte c) := by
  have hbyte := toNat_byte_of_isDigit hc
  simp only [Char.isDigit, Bool.and_eq_true, decide_eq_true_eq, UInt32.le_iff_toNat_le] at hc
  simp only [Text.isDigit, Bool.and_eq_true, decide_eq_true_eq, UInt8.le_iff_toNat_le, hbyte]
  exact hc

theorem ofNat_ne_nil : ofNat n ≠ [] := by
  simp [ofNat, Nat.toDigits_ne_nil]

theorem isDigit_of_mem_ofNat : ∀ b ∈ ofNat n, Text.isDigit b := by
  intro b hb
  obtain ⟨c, hc, rfl⟩ := List.mem_map.mp hb
  exact isDigit_byte (Nat.isDigit_of_mem_toDigits (by decide) (by decide) hc)

theorem digitsValue_ofNat : digitsValue (ofNat n) = n := by
  have hfold (cs : List Char) (hcs : ∀ c ∈ cs, c.isDigit) (k : Nat) :
      (cs.map Text.byte).foldl (fun m b => 10 * m + (b.toNat - 0x30)) k =
        Nat.ofDigitChars 10 cs k := by
    induction cs generalizing k with
    | nil => simp
    | cons c cs ih =>
      rw [List.map_cons, List.foldl_cons, toNat_byte_of_isDigit (hcs c (by simp)),
        ih fun d hd => hcs d (by simp [hd]), Nat.ofDigitChars_cons]
      rfl
  rw [digitsValue, ofNat, hfold _ fun c hc => Nat.isDigit_of_mem_toDigits (by decide) (by decide) hc]
  exact Nat.ofDigitChars_ten_toDigits

theorem ofDigits_digits (negative : Bool) {w : Text} (hne : w ≠ []) (hw : ∀ b ∈ w, Text.isDigit b) :
    ofDigits negative w = ofMagnitude negative (digitsValue w) := by
  have hempty : w.isEmpty = false := by
    rw [Bool.eq_false_iff, ne_eq, List.isEmpty_iff]
    exact hne
  have hall : w.all Text.isDigit := List.all_eq_true.mpr hw
  rw [ofDigits, hempty, hall]
  rfl

theorem ofDigits_ofNat (negative : Bool) : ofDigits negative (ofNat n) = ofMagnitude negative n := by
  rw [ofDigits_digits negative ofNat_ne_nil isDigit_of_mem_ofNat, digitsValue_ofNat]

/-- Digits have no sign in front. -/
theorem read_digits {w : Text} (hne : w ≠ []) (hw : ∀ b ∈ w, Text.isDigit b) :
    read w = ofMagnitude false (digitsValue w) := by
  obtain ⟨b, r, rfl⟩ := List.exists_cons_of_ne_nil hne
  have hb : Text.isDigit b := hw b List.mem_cons_self
  have hminus : b ≠ Text.byte '-' := by
    rintro rfl
    exact absurd hb (by decide)
  have hplus : b ≠ Text.byte '+' := by
    rintro rfl
    exact absurd hb (by decide)
  have hread : read (b :: r) = ofDigits false (b :: r) := by
    simp [read, hminus, hplus]
  rw [hread, ofDigits_digits false hne hw]

theorem read_ofNat : read (ofNat n) = ofMagnitude false n := by
  rw [read_digits ofNat_ne_nil isDigit_of_mem_ofNat, digitsValue_ofNat]

theorem toInt_of_read {w : Text} {i : Int64} (hne : w ≠ []) (hw : ∀ b ∈ w, Text.isDigit b)
    (h : read w = .ok i) : i.toInt = digitsValue w := by
  rw [read_digits hne hw, ofMagnitude, if_neg (by decide)] at h
  split at h
  · next hbound =>
    cases h
    rw [bound] at hbound
    exact Int64.toInt_ofInt_of_le (by omega) (by omega)
  · cases h

theorem read_ofInt64 (i : Int64) : read (ofInt64 i) = .ok i := by
  have hlow := i.le_toInt
  have hhigh := i.toInt_lt
  have hback := i.ofInt_toInt
  unfold ofInt64
  cases hi : i.toInt with
  | ofNat n =>
    have hn : n < bound := by
      rw [hi, Int.ofNat_eq_natCast] at hhigh
      simp only [bound]
      omega
    rw [ofInt, read_ofNat, ofMagnitude, if_neg (by decide), if_pos hn]
    rw [hi] at hback
    exact congrArg _ hback
  | negSucc n =>
    have hn : n + 1 ≤ bound := by
      rw [hi] at hlow
      simp only [bound]
      omega
    have hread : read (Text.byte '-' :: ofNat (n + 1)) = ofDigits true (ofNat (n + 1)) := rfl
    rw [ofInt, hread, ofDigits_ofNat, ofMagnitude, if_pos rfl, if_pos hn]
    rw [hi] at hback
    exact congrArg _ hback

section LeadingZeros

/-- Digits less the zeros in front of another digit. -/
def withoutZeros : Text → Text
  | b :: c :: r => if b = Text.byte '0' then withoutZeros (c :: r) else b :: c :: r
  | w => w

theorem digitsValue_append_singleton (w : Text) (b : UInt8) :
    digitsValue (w ++ [b]) = 10 * digitsValue w + (b.toNat - 0x30) := by
  simp [digitsValue]

theorem digit_bounds {b : UInt8} (hb : Text.isDigit b) : 0x30 ≤ b.toNat ∧ b.toNat ≤ 0x39 := by
  simp only [Text.isDigit, Bool.and_eq_true, decide_eq_true_eq, UInt8.le_iff_toNat_le] at hb
  exact hb

theorem byte_digitChar {b : UInt8} (hb : Text.isDigit b) :
    Text.byte (Nat.digitChar (b.toNat - 0x30)) = b := by
  have hbounds := digit_bounds hb
  have htable : ∀ d < 10, (Text.byte (Nat.digitChar d)).toNat = 0x30 + d := by decide
  rw [← UInt8.toNat_inj, htable _ (by omega)]
  omega

theorem ofNat_digit {b : UInt8} (hb : Text.isDigit b) : ofNat (b.toNat - 0x30) = [b] := by
  have hbounds := digit_bounds hb
  rw [ofNat, Nat.toDigits_of_lt_base (by omega), List.map_singleton, byte_digitChar hb]

theorem ofNat_append_digit (hn : 0 < n) {b : UInt8} (hb : Text.isDigit b) :
    ofNat (10 * n + (b.toNat - 0x30)) = ofNat n ++ [b] := by
  have hbounds := digit_bounds hb
  have hdiv : (10 * n + (b.toNat - 0x30)) / 10 = n := by omega
  have hmod : (10 * n + (b.toNat - 0x30)) % 10 = b.toNat - 0x30 := by omega
  rw [ofNat, Nat.toDigits_of_base_le (by omega) (by omega), hdiv, hmod, List.map_append,
    List.map_singleton, byte_digitChar hb, ofNat]

/-- Digits that do not start with a zero are written for their value. -/
theorem ofNat_digitsValue_of_head_ne {w : Text} (hne : w ≠ []) (hw : ∀ b ∈ w, Text.isDigit b)
    (hhead : w.head? ≠ some (Text.byte '0')) :
    0 < digitsValue w ∧ ofNat (digitsValue w) = w := by
  induction w using List.reverseRecOn with
  | nil => exact absurd rfl hne
  | append_singleton v d ih =>
    have hd : Text.isDigit d := hw d (by simp)
    rw [digitsValue_append_singleton]
    cases v with
    | nil =>
      have hzero : d.toNat ≠ 0x30 := fun h => hhead (by simp [← UInt8.toNat_inj, h, Text.byte])
      have hbounds := digit_bounds hd
      rw [show digitsValue [] = 0 from rfl, Nat.mul_zero, Nat.zero_add, ofNat_digit hd]
      exact ⟨by omega, rfl⟩
    | cons c v =>
      obtain ⟨hpos, hv⟩ :=
        ih (List.cons_ne_nil c v) (fun b hb => hw b (List.mem_append_left _ hb)) hhead
      exact ⟨by omega, by rw [ofNat_append_digit hpos hd, hv]⟩

/-- What is written for the value of digits is the digits, less their leading zeros. -/
theorem ofNat_digitsValue {w : Text} (hne : w ≠ []) (hw : ∀ b ∈ w, Text.isDigit b) :
    ofNat (digitsValue w) = withoutZeros w := by
  fun_induction withoutZeros w with
  | case1 c r ih =>
    rw [← ih (by simp) fun b hb => hw b (List.mem_cons_of_mem _ hb)]
    rfl
  | case2 b c r hb => exact (ofNat_digitsValue_of_head_ne hne hw (by simpa using hb)).2
  | case3 w hshort =>
    obtain ⟨b, r, rfl⟩ := List.exists_cons_of_ne_nil hne
    cases r with
    | nil => simpa [digitsValue] using ofNat_digit (hw b List.mem_cons_self)
    | cons c r => exact absurd rfl (hshort b c r)

end LeadingZeros

end Spreadsheet.Decimal
