import SqlFragment.Proofs.Double.Value

/-
Rounding a ratio to a number. The exponent is the one at which the mantissa has 53 bits, the
mantissa is nearest to the ratio and even on a tie, and a ratio that is a number is kept.
-/
namespace SqlFragment.Double

theorem two_zpow_lt_iff {a b : ℤ} : (2 : ℚ) ^ a < 2 ^ b ↔ a < b :=
  zpow_lt_zpow_iff_right₀ one_lt_two

/-! The mantissa. -/

theorem div_eq_quotient_add_rest (num : ℕ) {den : ℕ} (positive : 0 < den) :
    (num : ℚ) / den = (num / den : ℕ) + ((num % den : ℕ) : ℚ) / den := by
  have nonzero : (den : ℚ) ≠ 0 := Nat.cast_ne_zero.mpr positive.ne'
  calc (num : ℚ) / den = ((den * (num / den) + num % den : ℕ) : ℚ) / den := by
        rw [Nat.div_add_mod]
    _ = (num / den : ℕ) + ((num % den : ℕ) : ℚ) / den := by
        rw [Nat.cast_add, Nat.cast_mul, add_div, mul_div_cancel_left₀ _ nonzero]

/-- An integer nearest to `r`, the even one of two. -/
structure Nearest (r : ℚ) (m : ℕ) : Prop where
  near : |(m : ℚ) - r| ≤ 1 / 2
  even_of_tie : |(m : ℚ) - r| = 1 / 2 → Even m

theorem Nearest.eq_of_natCast {k m : ℕ} (nearest : Nearest k m) : m = k := by
  have near := abs_le.mp nearest.near
  have low : (m : ℚ) < k + 1 := by linarith
  have high : (k : ℚ) < m + 1 := by linarith
  norm_cast at low high
  omega

theorem nearest_roundDiv (num : ℕ) {den : ℕ} (positive : 0 < den) :
    Nearest (num / den) (roundDiv num den) := by
  have positive' : (0 : ℚ) < den := Nat.cast_pos.mpr positive
  have low : 0 ≤ ((num % den : ℕ) : ℚ) / den := by positivity
  have high : ((num % den : ℕ) : ℚ) / den < 1 := by
    rw [div_lt_one positive']
    exact_mod_cast Nat.mod_lt num positive
  have less : 2 * (num % den) < den ↔ ((num % den : ℕ) : ℚ) / den < 1 / 2 := by
    rw [div_lt_div_iff₀ positive' two_pos, one_mul, mul_comm]
    exact_mod_cast Iff.rfl
  have more : den < 2 * (num % den) ↔ 1 / 2 < ((num % den : ℕ) : ℚ) / den := by
    rw [div_lt_div_iff₀ two_pos positive', one_mul, mul_comm]
    exact_mod_cast Iff.rfl
  rw [div_eq_quotient_add_rest num positive]
  simp only [roundDiv, less, more]
  generalize num / den = quotient
  generalize ((num % den : ℕ) : ℚ) / den = rest at low high
  have down : |(quotient : ℚ) - (quotient + rest)| = rest := by
    rw [sub_add_cancel_left, abs_neg, abs_of_nonneg low]
  have up : |((quotient + 1 : ℕ) : ℚ) - (quotient + rest)| = 1 - rest := by
    rw [Nat.cast_add_one, add_sub_add_left_eq_sub, abs_of_nonneg (by linarith)]
  split_ifs with below above even
  · exact ⟨by linarith, fun tie => by linarith⟩
  · exact ⟨by linarith, fun tie => by linarith⟩
  · exact ⟨by linarith, fun _ => Nat.even_iff.mpr even⟩
  · exact ⟨by linarith, fun _ => Nat.even_iff.mpr (by omega)⟩

/-! The exponent. -/

/-- The exponent at which the mantissa of `r` has 53 bits, or the least exponent. -/
structure Fits (r : ℚ) (e : ℤ) : Prop where
  least : -1074 ≤ e
  below : r < 2 ^ (53 + e)
  above : 2 ^ (52 + e) ≤ r ∨ e = -1074

theorem Fits.le {r : ℚ} {e q : ℤ} (fits : Fits r e) (other : Fits r q) : q ≤ e := by
  rcases other.above with normal | least
  · have := two_zpow_lt_iff.mp (normal.trans_lt fits.below)
    omega
  · have := fits.least
    omega

theorem Fits.unique {r : ℚ} {e q : ℤ} (fits : Fits r e) (other : Fits r q) : e = q :=
  le_antisymm (other.le fits) (fits.le other)

theorem fits_of_canonical {m : ℕ} {q : ℤ} (c : Canonical m q) : Fits ((m : ℚ) * 2 ^ q) q := by
  obtain ⟨small, least, -, normal⟩ := c
  have positive : (0 : ℚ) < 2 ^ q := by positivity
  refine ⟨least, ?_, normal.imp_left fun large => ?_⟩
  · rw [zpow_add₀ two_ne_zero]
    gcongr
    exact_mod_cast small
  · rw [zpow_add₀ two_ne_zero]
    gcongr
    exact_mod_cast large

theorem scaled_den_pos (num : ℕ) {den : ℕ} (positive : 0 < den) (e : ℤ) :
    0 < (scaled num den e).2 := by
  unfold scaled
  split
  · exact positive
  · exact Nat.mul_pos positive (Nat.pow_pos (by decide))

theorem scaled_ratio (num den : ℕ) (e : ℤ) :
    ((scaled num den e).1 : ℚ) / (scaled num den e).2 = num / den / 2 ^ e := by
  unfold scaled
  split
  · have power : (2 : ℚ) ^ (-e).toNat = (2 ^ e)⁻¹ := by rw [two_pow_toNat (by omega), zpow_neg]
    simp only [Nat.pow_eq, Nat.cast_mul, Nat.cast_pow, Nat.cast_ofNat, power]
    ring
  · have power : (2 : ℚ) ^ e.toNat = 2 ^ e := two_pow_toNat (by omega)
    simp only [Nat.pow_eq, Nat.cast_mul, Nat.cast_pow, Nat.cast_ofNat, power, div_div]

theorem log2_bounds {n : ℕ} (nonzero : n ≠ 0) :
    (2 : ℚ) ^ (n.log2 : ℤ) ≤ n ∧ (n : ℚ) < 2 ^ ((n.log2 : ℤ) + 1) := by
  constructor
  · exact_mod_cast Nat.log2_self_le nonzero
  · exact_mod_cast Nat.lt_log2_self

/-- The logarithms of numerator and denominator give that of the ratio up to one. -/
theorem ratio_bounds {num den : ℕ} (hn : num ≠ 0) (hd : den ≠ 0) :
    (2 : ℚ) ^ ((num.log2 : ℤ) - den.log2 - 1) ≤ num / den ∧
      (num : ℚ) / den < 2 ^ ((num.log2 : ℤ) - den.log2 + 1) := by
  obtain ⟨numLow, numHigh⟩ := log2_bounds hn
  obtain ⟨denLow, denHigh⟩ := log2_bounds hd
  have positive : (0 : ℚ) < den := Nat.cast_pos.mpr (Nat.pos_of_ne_zero hd)
  constructor
  · rw [le_div_iff₀ positive]
    calc (2 : ℚ) ^ ((num.log2 : ℤ) - den.log2 - 1) * den
        ≤ 2 ^ ((num.log2 : ℤ) - den.log2 - 1) * 2 ^ ((den.log2 : ℤ) + 1) := by gcongr
      _ = 2 ^ (num.log2 : ℤ) := by
        rw [← zpow_add₀ two_ne_zero]
        congr 1
        ring
      _ ≤ num := numLow
  · rw [div_lt_iff₀ positive]
    calc (num : ℚ) < 2 ^ ((num.log2 : ℤ) + 1) := numHigh
      _ = 2 ^ ((num.log2 : ℤ) - den.log2 + 1) * 2 ^ (den.log2 : ℤ) := by
        rw [← zpow_add₀ two_ne_zero]
        congr 1
        ring
      _ ≤ 2 ^ ((num.log2 : ℤ) - den.log2 + 1) * den := by gcongr

theorem quotient_lt_iff {num den : ℕ} (positive : 0 < den) (e : ℤ) :
    (scaled num den e).1 / (scaled num den e).2 < 0x10000000000000 ↔
      (num : ℚ) / den < 2 ^ (52 + e) := by
  have scaledPositive := scaled_den_pos num positive e
  have scaledPositive' : (0 : ℚ) < (scaled num den e).2 := Nat.cast_pos.mpr scaledPositive
  rw [Nat.div_lt_iff_lt_mul scaledPositive, zpow_add₀ two_ne_zero, ← div_lt_iff₀ (by positivity),
    ← scaled_ratio, div_lt_iff₀ scaledPositive']
  exact_mod_cast Iff.rfl

theorem fits_exponentFor {num den : ℕ} (hn : num ≠ 0) (hd : den ≠ 0) :
    Fits (num / den) (exponentFor num den) := by
  obtain ⟨low, high⟩ := ratio_bounds hn hd
  -- the guess is right, or one too high
  obtain ⟨e, chosen, normal, below⟩ : ∃ e, exponentFor num den = Max.max e (-1074) ∧
      (2 : ℚ) ^ (52 + e) ≤ num / den ∧ (num : ℚ) / den < 2 ^ (53 + e) := by
    simp only [exponentFor, quotient_lt_iff (Nat.pos_of_ne_zero hd)]
    split_ifs with lower
    · refine ⟨_, rfl, le_of_eq_of_le ?_ low, lt_of_lt_of_eq lower ?_⟩ <;> congr 1 <;> ring
    · refine ⟨_, rfl, not_lt.mp lower, lt_of_lt_of_eq high ?_⟩
      congr 1
      ring
  rw [chosen]
  rcases le_total (-1074) e with within | under
  · rw [max_eq_left within]
    exact ⟨within, below, .inl normal⟩
  · rw [max_eq_right under]
    refine ⟨le_rfl, below.trans_le ?_, .inr rfl⟩
    exact zpow_le_zpow_right₀ one_le_two (by omega)

/-! The number. -/

theorem ofMantissa_of_canonical (negative : Bool) {m : ℕ} {q : ℤ} (c : Canonical m q) :
    ofMantissa negative m q = .finite negative m q c := by
  have small : m ≠ 0x20000000000000 := c.1.ne
  simp only [ofMantissa, small, ↓reduceIte, c, ↓reduceDIte]

theorem ofMantissa_cases (negative : Bool) (m : ℕ) (e : ℤ) :
    ofMantissa negative m e = .infinity negative ∨
      (ofMantissa negative m e).isFinite = true ∧
        (ofMantissa negative m e).value = signed negative (m * 2 ^ e) := by
  simp only [ofMantissa]
  split_ifs with carry c c
  · refine .inr ⟨rfl, ?_⟩
    rw [value_finite, carry, zpow_add_one₀ two_ne_zero]
    congr 1
    norm_num
    ring
  · exact .inl rfl
  · exact .inr ⟨rfl, value_finite ..⟩
  · exact .inl rfl

theorem ofRatio_eq_ofMantissa (negative : Bool) {num den : ℕ} (hn : num ≠ 0) (hd : den ≠ 0) :
    ∃ m e, Fits (num / den) e ∧ Nearest (num / den / 2 ^ e) m ∧
      ofRatio negative num den = ofMantissa negative m e := by
  refine ⟨roundDiv (scaled num den (exponentFor num den)).1 (scaled num den (exponentFor num den)).2,
    _, fits_exponentFor hn hd, ?_, ?_⟩
  · rw [← scaled_ratio]
    exact nearest_roundDiv _ (scaled_den_pos num (Nat.pos_of_ne_zero hd) _)
  · simp only [ofRatio, hn, ↓reduceIte]

/-- The absolute values of finite numbers. -/
def Representable (r : ℚ) : Prop := ∃ (m : ℕ) (q : ℤ), Canonical m q ∧ r = m * 2 ^ q

theorem representable_of_lt {m : ℕ} {q : ℤ} (small : m < 0x20000000000000) (least : -1074 ≤ q)
    (most : q ≤ 971) : Representable (m * 2 ^ q) := by
  obtain ⟨k, rfl⟩ : ∃ k : ℕ, q = k - 1074 := ⟨(q + 1074).toNat, by omega⟩
  induction k generalizing m with
  | zero => exact ⟨m, _, ⟨small, least, most, .inr (by simp)⟩, rfl⟩
  | succ k ih =>
    by_cases normal : 0x10000000000000 ≤ m
    · exact ⟨m, _, ⟨small, least, most, .inl normal⟩, rfl⟩
    · have shifted : (m : ℚ) * 2 ^ ((k + 1 : ℕ) - 1074 : ℤ) =
          (2 * m : ℕ) * 2 ^ ((k : ℤ) - 1074) := by
        rw [Nat.cast_mul, Nat.cast_ofNat, mul_comm (2 : ℚ), mul_assoc, ← zpow_one_add₀ two_ne_zero]
        congr 2
        push_cast
        ring
      rw [shifted]
      exact ih (by omega) (by omega) (by omega)

theorem ofRatio_of_representable (negative : Bool) {num den : ℕ} (hd : den ≠ 0)
    (number : Representable ((num : ℚ) / den)) :
    (ofRatio negative num den).isFinite = true ∧
      (ofRatio negative num den).value = signed negative (num / den) := by
  by_cases hn : num = 0
  · simp [ofRatio, hn, zero, isFinite, value_finite]
  · obtain ⟨m, q, c, same⟩ := number
    obtain ⟨k, e, fits, nearest, rounded⟩ := ofRatio_eq_ofMantissa negative hn hd
    rw [same] at fits nearest
    obtain rfl := fits.unique (fits_of_canonical c)
    rw [mul_div_cancel_right₀ _ (by positivity)] at nearest
    obtain rfl := nearest.eq_of_natCast
    rw [rounded, ofMantissa_of_canonical negative c, value_finite, same]
    exact ⟨rfl, rfl⟩

/-! Operations whose exact result is a number. -/

theorem value_ofInt {n : ℤ} (small : n.natAbs < 0x20000000000000) :
    (ofInt n).isFinite = true ∧ (ofInt n).value = n := by
  have number : Representable ((n.natAbs : ℚ) / (1 : ℕ)) := by
    have shifted := representable_of_lt (q := 0) small (by decide) (by decide)
    rwa [zpow_zero, mul_one, ← div_one (n.natAbs : ℚ), ← Nat.cast_one] at shifted
  obtain ⟨isFinite, rounded⟩ := ofRatio_of_representable (decide (n < 0)) one_ne_zero number
  refine ⟨isFinite, rounded.trans ?_⟩
  rw [Nat.cast_one, div_one, Nat.cast_natAbs, signed]
  by_cases negative : n < 0
  · simp [negative, abs_of_neg]
  · simp [negative, abs_of_nonneg (not_lt.mp negative)]

/-- The fraction of a number has the number's exponent and no more digits, so it is exact. -/
theorem value_fraction {x : Double} (isFinite : x.isFinite = true) :
    x.fraction.isFinite = true ∧ x.fraction.value = Int.fract |x.value| := by
  have number : Representable (((x.magnitude % x.denominator : ℕ) : ℚ) / x.denominator) := by
    obtain ⟨negative, m, q, c, rfl⟩ := exists_of_isFinite isFinite
    simp only [magnitude, denominator, Nat.pow_eq]
    rcases le_total 0 q with whole | small
    · have one : (-q).toNat = 0 := by omega
      have none := representable_of_lt (m := 0) (q := 0) (by decide) (by decide) (by decide)
      simpa [one, Nat.mod_one] using none
    · have one : q.toNat = 0 := by omega
      have power : (2 : ℚ) ^ (-q).toNat = (2 ^ q)⁻¹ := by rw [two_pow_toNat (by omega), zpow_neg]
      rw [one, pow_zero, mul_one, Nat.cast_pow, Nat.cast_ofNat, power, div_inv_eq_mul]
      exact representable_of_lt ((Nat.mod_le _ _).trans_lt c.1) c.2.1 c.2.2.1
  obtain ⟨isFinite', rounded⟩ := ofRatio_of_representable false x.denominator_pos.ne' number
  refine ⟨isFinite', rounded.trans ?_⟩
  rw [abs_value, Int.fract_div_natCast_eq_div_natCast_mod]
  rfl

theorem value_mul {x y : Double} (left : x.isFinite = true) (right : y.isFinite = true)
    (number : Representable |x.value * y.value|) :
    (x.mul y).isFinite = true ∧ (x.mul y).value = x.value * y.value := by
  have product : ((x.magnitude * y.magnitude : ℕ) : ℚ) / (x.denominator * y.denominator : ℕ) =
      (x.magnitude / x.denominator) * (y.magnitude / y.denominator) := by
    rw [Nat.cast_mul, Nat.cast_mul, mul_div_mul_comm]
  have number' : Representable
      (((x.magnitude * y.magnitude : ℕ) : ℚ) / (x.denominator * y.denominator : ℕ)) := by
    rwa [product, ← abs_value, ← abs_value, ← abs_mul]
  have rounded := ofRatio_of_representable (x.isNegative != y.isNegative)
    (Nat.mul_ne_zero x.denominator_pos.ne' y.denominator_pos.ne') number'
  rw [product, signed_mul, ← value_eq_signed, ← value_eq_signed] at rounded
  obtain ⟨_, _, _, _, rfl⟩ := exists_of_isFinite left
  obtain ⟨_, _, _, _, rfl⟩ := exists_of_isFinite right
  exact rounded

end SqlFragment.Double
