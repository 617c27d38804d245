import Mathlib.Algebra.Ring.Int.Defs
import Mathlib.Order.Bounds.Basic

/-! # 64-bit words as integers

Coordinates, widths and values are 64-bit words. Their sums and differences are those of integers as
long as they stay between the ends of the words, and so is their order.
-/
namespace Spreadsheet

variable {a b : Int64}

theorem toInt_add_eq (hlower : -2 ^ 63 ≤ a.toInt + b.toInt) (hupper : a.toInt + b.toInt < 2 ^ 63) :
    (a + b).toInt = a.toInt + b.toInt := by
  rw [Int64.toInt_add, Int.bmod_eq_of_le (by omega) (by omega)]

/-- A sum that is too small for a word wraps to a large one. -/
theorem toInt_add_of_lt (h : a.toInt + b.toInt < -2 ^ 63) :
    (a + b).toInt = a.toInt + b.toInt + 2 ^ 64 := by
  have ha := a.le_toInt
  have hb := b.le_toInt
  rw [Int64.toInt_add, Int.bmod_def]
  omega

/-- A sum that is too large for a word wraps to a negative one. -/
theorem toInt_add_of_le (h : 2 ^ 63 ≤ a.toInt + b.toInt) :
    (a + b).toInt = a.toInt + b.toInt - 2 ^ 64 := by
  have ha := a.toInt_lt
  have hb := b.toInt_lt
  rw [Int64.toInt_add, Int.bmod_def]
  omega

theorem toInt_sub_eq (hlower : -2 ^ 63 ≤ a.toInt - b.toInt) (hupper : a.toInt - b.toInt < 2 ^ 63) :
    (a - b).toInt = a.toInt - b.toInt := by
  rw [Int64.toInt_sub, Int.bmod_eq_of_le (by omega) (by omega)]

theorem toInt_add_one (h : a.toInt < 2 ^ 63 - 1) : (a + 1).toInt = a.toInt + 1 := by
  have := a.le_toInt
  rw [toInt_add_eq] <;> rw [Int64.toInt_one] <;> omega

theorem lt_or_eq_maxValue (a : Int64) : a.toInt < 2 ^ 63 - 1 ∨ a = Int64.maxValue := by
  have hlt := a.toInt_lt
  rw [← Int64.toInt_inj, show Int64.maxValue.toInt = 2 ^ 63 - 1 by decide]
  omega

theorem toInt_sub_one (h : -2 ^ 63 < a.toInt) : (a - 1).toInt = a.toInt - 1 := by
  have := a.toInt_lt
  rw [toInt_sub_eq] <;> rw [Int64.toInt_one] <;> omega

theorem not_neg_of_toInt (h : 0 ≤ a.toInt) : ¬ a < 0 := by
  rw [Int64.lt_iff_toInt_lt, Int64.toInt_zero]
  omega

/-- Half of a word is far from the ends of the words. -/
theorem toInt_half_bounds (a : Int64) : -2 ^ 62 ≤ (a / 2).toInt ∧ (a / 2).toInt ≤ 2 ^ 62 := by
  have hlower := a.le_toInt
  have hupper := a.toInt_lt
  have htwo : (2 : Int64).toInt = 2 := rfl
  have hhalf : -2 ^ 62 ≤ a.toInt.tdiv 2 ∧ a.toInt.tdiv 2 ≤ 2 ^ 62 := by
    rw [Int.tdiv_eq_ediv, show Int.sign 2 = 1 by rfl]
    split <;> omega
  rwa [Int64.toInt_div, htwo, Int.bmod_eq_of_le (by omega) (by omega)]

/-- Only the difference of two numbers has to fit, however large the numbers are. -/
theorem toInt_add_ofNat_sub {m n : Nat} (hle : m ≤ n) (h : a.toInt + (n - m : Nat) < 2 ^ 63) :
    (a + Int64.ofNat n - Int64.ofNat m).toInt = a.toInt + (n - m : Nat) := by
  have hlower := a.le_toInt
  rw [Int64.toInt_sub, Int64.toInt_add, Int64.toInt_ofNat', Int64.toInt_ofNat',
    show Int64.size = 2 ^ 64 by rfl, Int.add_bmod_bmod, Int.bmod_sub_bmod, Int.sub_bmod_bmod,
    Int.bmod_eq_of_le (by omega) (by omega)]
  omega

/-- A word is reached from another one by counting up. -/
theorem add_ofNat_eq {n : Nat} (h : (n : Int) = b.toInt - a.toInt) : a + Int64.ofNat n = b := by
  have hlower := b.le_toInt
  have hupper := b.toInt_lt
  rw [← Int64.toInt_inj, Int64.toInt_add, Int64.toInt_ofNat', show Int64.size = 2 ^ 64 by rfl,
    Int.add_bmod_bmod, h, Int.bmod_eq_of_le (by omega) (by omega)]
  omega

theorem toInt_max (a b : Int64) : (max a b).toInt = max a.toInt b.toInt := by
  change (if a ≤ b then b else a).toInt = _
  rw [apply_ite Int64.toInt]
  simp only [Int64.le_iff_toInt_le]
  omega

theorem toInt_min (a b : Int64) : (min a b).toInt = min a.toInt b.toInt := by
  change (if a ≤ b then a else b).toInt = _
  rw [apply_ite Int64.toInt]
  simp only [Int64.le_iff_toInt_le]
  omega

/-- A word that has the same upper bounds as a set is the greatest of it. -/
theorem isGreatest_of_toInt_lt_iff {S : Set Int64} {m : Int64}
    (h : ∀ n : Int, m.toInt < n ↔ ∀ a ∈ S, a.toInt < n) : IsGreatest S m := by
  have hupper : ∀ a ∈ S, a.toInt ≤ m.toInt := fun a ha =>
    Int.lt_add_one_iff.mp ((h (m.toInt + 1)).mp (Int.lt_succ m.toInt) a ha)
  refine ⟨?_, fun a ha => Int64.le_iff_toInt_le.mpr (hupper a ha)⟩
  have hlast : ¬ ∀ a ∈ S, a.toInt < m.toInt := fun hall => Int.lt_irrefl _ ((h m.toInt).mpr hall)
  simp only [not_forall, Int.not_lt] at hlast
  obtain ⟨a, ha, hle⟩ := hlast
  rwa [← Int64.toInt_inj.mp (Int.le_antisymm (hupper a ha) hle)]

end Spreadsheet
