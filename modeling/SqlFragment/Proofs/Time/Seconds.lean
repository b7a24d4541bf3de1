import SqlFragment.Proofs.Double.Rounding
import SqlFragment.Value.Cast

/-
Numbers of seconds as timestamps. The second is the floor of the number and the nanoseconds are
its distance to the integer on the side of zero: from zero on that is the same instant, before
zero it is the instant mirrored within its second.
-/
namespace SqlFragment

/-- The seconds since the start of 1970, with their fraction. -/
def Timestamp.instant (t : Timestamp) : ℚ := t.seconds + t.nanos / 10 ^ 9

namespace Value

section
variable {x : Double} {k : ℤ}

theorem fract_of_multiple (multiple : x.value = k / 2 ^ 9) :
    Int.fract |x.value| = (k.natAbs % 512 : ℕ) / (512 : ℕ) := by
  rw [multiple, abs_div, ← Int.cast_abs, Int.abs_eq_natAbs, Int.cast_natCast,
    ← Int.fract_div_natCast_eq_div_natCast_mod]
  norm_num

/-- The nanoseconds of a multiple of `2 ^ -9` are an integer, so that the product is exact. -/
theorem nanos_of_multiple (isFinite : x.isFinite = true) (multiple : x.value = k / 2 ^ 9) :
    (x.fraction.mul (.ofInt 1000000000)).truncate.toNat = k.natAbs % 512 * 1953125 := by
  obtain ⟨fractionFinite, fraction⟩ := Double.value_fraction isFinite
  obtain ⟨billionFinite, billion⟩ := Double.value_ofInt (n := 1000000000) (by decide)
  have product : x.fraction.value * (Double.ofInt 1000000000).value =
      (k.natAbs % 512 * 1953125 : ℕ) := by
    rw [fraction, billion, fract_of_multiple multiple]
    push_cast
    ring
  have nonneg : 0 ≤ x.fraction.value * (Double.ofInt 1000000000).value := by
    rw [product]
    positivity
  have small : k.natAbs % 512 * 1953125 < 0x20000000000000 := by omega
  have number := Double.representable_of_lt (q := 0) small (by decide) (by decide)
  rw [zpow_zero, mul_one, ← product, ← abs_of_nonneg nonneg] at number
  obtain ⟨-, exact⟩ := Double.value_mul fractionFinite billionFinite number
  rw [Double.truncate_of_nonneg (exact ▸ nonneg), exact, product, Int.floor_natCast,
    Int.toNat_natCast]

theorem timestampOfFloat?_of_multiple (isFinite : x.isFinite = true)
    (multiple : x.value = k / 2 ^ 9) (near : |x.value| ≤ 2 ^ 32) :
    timestampOfFloat? x = some ⟨⌊x.value⌋, k.natAbs % 512 * 1953125, 0⟩ := by
  obtain ⟨low, high⟩ := abs_le.mp near
  have least : -(2 ^ 32) ≤ ⌊x.value⌋ := Int.le_floor.mpr (by exact_mod_cast low)
  have most : ⌊x.value⌋ ≤ 2 ^ 32 := by exact_mod_cast (Int.floor_le x.value).trans high
  have inRange : Timestamp.InRange ⌊x.value⌋ := ⟨by omega, by omega⟩
  have nanosFit : Timestamp.NanosFit ⌊x.value⌋ (k.natAbs % 512 * 1953125) := .inl (by omega)
  simp only [timestampOfFloat?, isFinite, ↓reduceIte, Timestamp.ofUnix?, Double.floor_eq,
    nanos_of_multiple isFinite multiple, inRange, nanosFit, and_self]

end

/-- Before zero, the floor and the distance to the side of zero make the mirror image. -/
theorem floor_add_fract_abs (v : ℚ) :
    (⌊v⌋ : ℚ) + Int.fract |v| = if 0 ≤ v then v else ⌊v⌋ + ⌈v⌉ - v := by
  split_ifs with sign
  · rw [abs_of_nonneg sign, Int.floor_add_fract]
  · rw [abs_of_neg (not_le.mp sign), Int.fract, Int.floor_neg]
    push_cast
    ring

theorem mirrored_iff (v : ℚ) : (⌊v⌋ : ℚ) + ⌈v⌉ - v = v ↔ ∃ h : ℤ, 2 * v = h := by
  constructor
  · intro same
    exact ⟨⌊v⌋ + ⌈v⌉, by push_cast; linarith⟩
  · rintro ⟨h, double⟩
    have low := Int.floor_le v
    have high := Int.lt_floor_add_one v
    have least : (2 * ⌊v⌋ : ℚ) ≤ h := by linarith
    have most : (h : ℚ) < 2 * ⌊v⌋ + 2 := by linarith
    norm_cast at least most
    obtain whole | half : h = 2 * ⌊v⌋ ∨ h = 2 * ⌊v⌋ + 1 := by omega
    · have same : v = ⌊v⌋ := by
        rw [whole] at double
        push_cast at double
        linarith
      have ceil : ⌈v⌉ = ⌊v⌋ := Int.ceil_eq_iff.mpr ⟨by linarith, same.le⟩
      rw [ceil]
      linarith
    · rw [half] at double
      push_cast at double
      have ceil : ⌈v⌉ = ⌊v⌋ + 1 :=
        Int.ceil_eq_iff.mpr ⟨by push_cast; linarith, by push_cast; linarith⟩
      rw [ceil]
      push_cast
      linarith

/-- A number of seconds that is a multiple of `2 ^ -9`, up to `2 ^ 32` on either side of zero, always
becomes a timestamp. It is the same instant exactly from zero on and at the ends and in the middle
of seconds before; otherwise it is mirrored within its second. -/
theorem instant_of_seconds_iff (x : Double) (k : ℤ) (isFinite : x.isFinite = true)
    (multiple : x.value = k / 2 ^ 9) (near : |x.value| ≤ 2 ^ 32) :
    ∃ t, (float x).cast .timestamp = .ok (timestamp t) ∧
      (t.instant = x.value ↔ 0 ≤ x.value ∨ ∃ h : ℤ, 2 * x.value = h) ∧
      t.instant = if 0 ≤ x.value then x.value else ⌊x.value⌋ + ⌈x.value⌉ - x.value := by
  refine ⟨⟨⌊x.value⌋, k.natAbs % 512 * 1953125, 0⟩, ?_, ?_⟩
  · unfold cast
    simp only [timestampOfFloat?_of_multiple isFinite multiple near, Option.map_some]
  · have instant : Timestamp.instant ⟨⌊x.value⌋, k.natAbs % 512 * 1953125, 0⟩ =
        if 0 ≤ x.value then x.value else ⌊x.value⌋ + ⌈x.value⌉ - x.value := by
      rw [← floor_add_fract_abs, fract_of_multiple multiple, Timestamp.instant]
      push_cast
      ring
    refine ⟨?_, instant⟩
    rw [instant]
    split_ifs with sign
    · exact iff_of_true rfl (.inl sign)
    · rw [mirrored_iff, or_iff_right sign]

/-- Half a second before a whole one, before 1970, is kept. -/
theorem instant_of_half_second :
    let x : Double := .finite true 0x14000000000000 (-51) (by decide)
    x.isFinite = true ∧ x.value = (-1280 : ℤ) / 2 ^ 9 ∧ |x.value| ≤ 2 ^ 32 ∧
      ∃ t, (float x).cast .timestamp = .ok (timestamp t) ∧ t.instant = -5 / 2 := by
  intro x
  have seconds : x.value = -5 / 2 := by
    rw [Double.value_finite]
    norm_num [Double.signed]
  have multiple : x.value = (-1280 : ℤ) / 2 ^ 9 := by
    rw [seconds]
    norm_num
  have near : |x.value| ≤ 2 ^ 32 := by
    rw [seconds]
    norm_num [abs_of_neg]
  obtain ⟨t, converted, kept, -⟩ := instant_of_seconds_iff x (-1280) rfl multiple near
  refine ⟨rfl, multiple, near, t, converted, ?_⟩
  rw [kept.mpr (.inr ⟨-5, by rw [seconds]; norm_num⟩), seconds]

/-- A second and a quarter before 1970 becomes a second and three quarters before. -/
theorem instant_of_quarter_second_mirrored :
    let x : Double := .finite true 0x14000000000000 (-52) (by decide)
    let t : Timestamp := ⟨-2, 250000000, 0⟩
    x.value = (-640 : ℤ) / 2 ^ 9 ∧ (float x).cast .timestamp = .ok (timestamp t) ∧
      t.instant = -7 / 4 ∧ t.instant ≠ x.value := by
  intro x t
  have seconds : x.value = -5 / 4 := by
    rw [Double.value_finite]
    norm_num [Double.signed]
  have mirrored : t.instant = -7 / 4 := by norm_num [t, Timestamp.instant]
  rw [mirrored, seconds]
  exact ⟨by norm_num, by decide +kernel, rfl, by norm_num⟩

end Value
end SqlFragment
