import Mathlib.Algebra.Order.Field.Power
import Mathlib.Data.Rat.Floor
import Mathlib.Tactic.Linarith
import Mathlib.Tactic.NormNum
import Mathlib.Tactic.Positivity
import Mathlib.Tactic.Ring
import SqlFragment.Double.Basic

/-
The rational number that a finite number is, and the integers next to it. Rounding is stated about
these rationals in the module after this one.
-/
namespace SqlFragment.Double

def signed (negative : Bool) (r : ℚ) : ℚ := if negative then -r else r

theorem signed_mul (a b : Bool) (r s : ℚ) : signed (a != b) (r * s) = signed a r * signed b s := by
  cases a <;> cases b <;> simp [signed]

theorem abs_signed (negative : Bool) (r : ℚ) : |signed negative r| = |r| := by
  cases negative <;> simp [signed]

/-- The rational number that a finite number is; the others stand at zero. -/
def value (x : Double) : ℚ := x.numerator / x.denominator

theorem denominator_pos (x : Double) : 0 < x.denominator := by
  cases x with
  | nan => exact Nat.one_pos
  | infinity _ => exact Nat.one_pos
  | finite _ _ q _ => exact Nat.pow_pos (by decide)

theorem value_eq_signed (x : Double) :
    x.value = signed x.isNegative ((x.magnitude : ℚ) / x.denominator) := by
  simp only [value, numerator, signed]
  split
  · rw [Int.cast_neg, Int.cast_natCast, neg_div]
  · rw [Int.cast_natCast]

theorem abs_value (x : Double) : |x.value| = (x.magnitude : ℚ) / x.denominator := by
  rw [value_eq_signed, abs_signed, abs_of_nonneg (by positivity)]

theorem exists_of_isFinite {x : Double} (isFinite : x.isFinite = true) :
    ∃ negative m q, ∃ c : Canonical m q, x = finite negative m q c := by
  cases x with
  | nan => cases isFinite
  | infinity _ => cases isFinite
  | finite negative m q c => exact ⟨negative, m, q, c, rfl⟩

theorem two_pow_toNat {q : ℤ} (nonneg : 0 ≤ q) : (2 : ℚ) ^ q.toNat = 2 ^ q := by
  rw [← zpow_natCast, Int.toNat_of_nonneg nonneg]

/-- One of the two powers is `1`. -/
theorem two_pow_toNat_div (q : ℤ) : (2 : ℚ) ^ q.toNat / 2 ^ (-q).toNat = 2 ^ q := by
  rw [← zpow_natCast, ← zpow_natCast, ← zpow_sub₀ two_ne_zero]
  congr 1
  omega

theorem magnitude_div_denominator (negative : Bool) (m : ℕ) (q : ℤ) (c : Canonical m q) :
    ((finite negative m q c).magnitude : ℚ) / (finite negative m q c).denominator =
      m * 2 ^ q := by
  rw [← two_pow_toNat_div q, mul_div_assoc']
  simp only [magnitude, denominator, Nat.pow_eq, Nat.cast_mul, Nat.cast_pow, Nat.cast_ofNat]

theorem value_finite (negative : Bool) (m : ℕ) (q : ℤ) (c : Canonical m q) :
    (finite negative m q c).value = signed negative (m * 2 ^ q) := by
  rw [value_eq_signed, magnitude_div_denominator]
  rfl

theorem numerator_nonneg_iff (x : Double) : 0 ≤ x.numerator ↔ 0 ≤ x.value := by
  have positive : (0 : ℚ) < x.denominator := Nat.cast_pos.mpr x.denominator_pos
  rw [value, le_div_iff₀ positive, zero_mul, Int.cast_nonneg_iff]

theorem floor_eq (x : Double) : x.floor = ⌊x.value⌋ := by
  rw [floor, value, Rat.floor_intCast_div_natCast,
    Int.fdiv_eq_ediv_of_nonneg _ (Int.natCast_nonneg x.denominator)]

theorem truncate_of_nonneg {x : Double} (nonneg : 0 ≤ x.value) : x.truncate = ⌊x.value⌋ := by
  rw [truncate, value, Rat.floor_intCast_div_natCast,
    Int.tdiv_eq_ediv_of_nonneg (x.numerator_nonneg_iff.mpr nonneg)]

theorem truncate_of_nonpos {x : Double} (nonpos : x.value ≤ 0) : x.truncate = ⌈x.value⌉ := by
  have positive : (0 : ℚ) < x.denominator := Nat.cast_pos.mpr x.denominator_pos
  have below : 0 ≤ -x.numerator := by
    rw [value, div_le_iff₀ positive, zero_mul] at nonpos
    have : x.numerator ≤ 0 := by exact_mod_cast nonpos
    omega
  rw [truncate, value, Rat.ceil_intCast_div_natCast, ← Int.tdiv_eq_ediv_of_nonneg below,
    Int.neg_tdiv, neg_neg]

end SqlFragment.Double
