import SqlFragment.Proofs.Double.Decimal
import SqlFragment.Proofs.Double.Rounding
import SqlFragment.Value.Cast

/-
Decimal text as an integer. What does not fit 64 bits is read as a float, and the floats that are
cut off to an integer reach up to the one after the greatest integer, so that the numbers that
round to it, or to the least integer, are not refused.
-/
namespace SqlFragment

theorem Text.trim_of_blanks {before inside after : List Char} (filled : inside ≠ [])
    (visible : ∀ c ∈ inside, isBlank c = false) (blankBefore : ∀ c ∈ before, isBlank c = true)
    (blankAfter : ∀ c ∈ after, isBlank c = true) :
    trim (String.ofList (before ++ inside ++ after)) = String.ofList inside := by
  have front : skipBlank (before ++ inside ++ after) = inside ++ after := by
    obtain ⟨c, cs, rfl⟩ := List.exists_cons_of_ne_nil filled
    rw [skipBlank, List.append_assoc, List.dropWhile_append_of_pos blankBefore]
    simp [visible c List.mem_cons_self]
  have back : skipBlank (inside ++ after).reverse = inside.reverse := by
    rw [skipBlank, List.reverse_append, List.dropWhile_append_of_pos (by simpa using blankAfter)]
    exact skipBlank_of_all (by simpa using visible)
  rw [trim, String.toList_ofList, front, back, List.reverse_reverse]

/-! Numbers cut off to integers. -/

namespace Value

theorem integerOfFloat?_eq (x : Double) :
    integerOfFloat? x =
      if x.isFinite = true ∧ -2 ^ 63 ≤ x.value ∧ x.value ≤ 2 ^ 63 then
        some (Integer.saturate x.truncate)
      else none := by
  have positive : (0 : ℚ) < x.denominator := Nat.cast_pos.mpr x.denominator_pos
  have low : Integer.least * x.denominator ≤ x.numerator ↔ -2 ^ 63 ≤ x.value := by
    rw [Double.value, le_div_iff₀ positive, ← Int.cast_le (R := ℚ)]
    norm_num [Integer.least]
  have high : x.numerator ≤ (Integer.greatest + 1) * x.denominator ↔ x.value ≤ 2 ^ 63 := by
    rw [Double.value, div_le_iff₀ positive, ← Int.cast_le (R := ℚ)]
    norm_num [Integer.greatest]
  simp only [integerOfFloat?, low, high]

end Value

/-! Whole numbers as floats. -/

namespace Double

theorem ofNat_eq_ofMantissa (negative : Bool) {n : ℕ} (nonzero : n ≠ 0) :
    ∃ m e, Fits n e ∧ Nearest (n / 2 ^ e) m ∧ ofRatio negative n 1 = ofMantissa negative m e := by
  simpa using ofRatio_eq_ofMantissa negative nonzero one_ne_zero

/-- Up to half a step above it, numbers round to the number after the greatest integer. -/
theorem ofRatio_step_above {n : ℕ} (negative : Bool) (large : 2 ^ 63 ≤ n)
    (near : n ≤ 2 ^ 63 + 1024) :
    ofRatio negative n 1 = .finite negative 0x10000000000000 11 (by decide) := by
  obtain ⟨m, e, fits, nearest, rounded⟩ := ofNat_eq_ofMantissa negative (by omega : n ≠ 0)
  have low : (2 : ℚ) ^ 63 ≤ n := by exact_mod_cast large
  have high : (n : ℚ) ≤ 2 ^ 63 + 1024 := by exact_mod_cast near
  have word : Fits n 11 :=
    ⟨by decide, high.trans_lt (by norm_num), .inl (le_of_eq_of_le (by norm_num) low)⟩
  obtain rfl := fits.unique word
  have close := abs_le.mp nearest.near
  norm_num at close
  have least : (0x10000000000000 : ℚ) < m + 1 := by linarith
  have most : (m : ℚ) ≤ 0x10000000000000 + 1 := by linarith
  norm_cast at least most
  obtain same | next : m = 0x10000000000000 ∨ m = 0x10000000000000 + 1 := by omega
  · rw [rounded, same]
    exact ofMantissa_of_canonical negative (by decide)
  · -- half way between the two the even mantissa is taken
    have tie : |(m : ℚ) - n / 2 ^ (11 : ℤ)| = 1 / 2 := by
      refine le_antisymm nearest.near (le_abs.mpr (.inl ?_))
      rw [next]
      norm_num
      linarith
    have even := nearest.even_of_tie tie
    rw [next] at even
    exact absurd even (by decide)

theorem ofRatio_beyond_step {n : ℕ} (negative : Bool) (beyond : 2 ^ 63 + 1024 < n) :
    ofRatio negative n 1 = .infinity negative ∨
      (ofRatio negative n 1).isFinite = true ∧ 2 ^ 63 < |(ofRatio negative n 1).value| := by
  obtain ⟨m, e, fits, nearest, rounded⟩ := ofNat_eq_ofMantissa negative (by omega : n ≠ 0)
  have low : (2 : ℚ) ^ 63 + 1024 < n := by exact_mod_cast beyond
  have large : (2 : ℚ) ^ (63 : ℤ) < 2 ^ (53 + e) := lt_trans (by norm_num; linarith) fits.below
  have word : 11 ≤ e := by
    have := two_zpow_lt_iff.mp large
    omega
  have positive : (0 : ℚ) < 2 ^ e := by positivity
  have close := abs_le.mp nearest.near
  have more : (2 : ℚ) ^ 63 < m * 2 ^ e := by
    obtain rfl | above := word.eq_or_lt
    · norm_num at close ⊢
      linarith
    · have normal : (2 : ℚ) ^ (52 + e) ≤ n := fits.above.resolve_right (by omega)
      have mantissa : (2 : ℚ) ^ 52 < m + 1 := by
        have := (le_div_iff₀ positive).mpr ((zpow_add₀ two_ne_zero 52 e).symm.trans_le normal)
        norm_num at this close ⊢
        linarith
      have full : (2 : ℚ) ^ 52 ≤ m := by
        norm_cast at mantissa ⊢
        omega
      calc (2 : ℚ) ^ 63 < (2 : ℚ) ^ 52 * 2 ^ (12 : ℤ) := by norm_num
        _ ≤ (m : ℚ) * 2 ^ e := by
          gcongr
          · norm_num
          · omega
  rw [rounded]
  refine (ofMantissa_cases negative m e).imp_right fun found => ⟨found.1, ?_⟩
  rw [found.2, abs_signed]
  exact more.trans_le (le_abs_self _)

theorem ofDecimal_whole (negative : Bool) {n : ℕ} (nonzero : n ≠ 0) :
    ofDecimal negative n 0 =
      if (Nat.toDigits 10 n).length ≤ 310 then ofRatio negative n 1 else .infinity negative := by
  have low : ¬((Nat.toDigits 10 n).length : ℤ) + 0 < -330 := by omega
  have high : 310 < ((Nat.toDigits 10 n).length : ℤ) + 0 ↔ ¬(Nat.toDigits 10 n).length ≤ 310 := by
    omega
  simp only [ofDecimal, nonzero, low, or_self, ↓reduceIte, high, ite_not, Ratio.ofPower,
    Int.toNat_zero, neg_zero, Nat.pow_eq, pow_zero, mul_one]

end Double

namespace Integer

theorem saturate_of_ge {z : ℤ} (high : greatest ≤ z) : saturate z = Int64.ofInt greatest := by
  rw [saturate, min_eq_right high, max_eq_right (by decide)]

theorem saturate_of_le {z : ℤ} (low : z ≤ least) : saturate z = Int64.ofInt least := by
  rw [saturate, max_eq_left (min_le_of_left_le low)]

end Integer

/-- Beyond 64 bits, the numbers up to half a step away still become the integer at the end. -/
theorem Value.integerOfFloat?_ofDecimal (negative : Bool) {n : ℕ} (large : 2 ^ 63 ≤ n) :
    integerOfFloat? (.ofDecimal negative n 0) =
      if n ≤ 2 ^ 63 + 1024 then some (Integer.saturate (if negative then -n else n)) else none := by
  by_cases near : n ≤ 2 ^ 63 + 1024
  · have short : (Nat.toDigits 10 n).length ≤ 20 :=
      (Nat.length_toDigits_le_iff (by decide) (by decide)).mpr (by omega)
    rw [if_pos near, Double.ofDecimal_whole negative (by omega), if_pos (by omega),
      Double.ofRatio_step_above negative large near]
    cases negative with
    | false =>
      have high : Integer.greatest ≤ n := by
        simp only [Integer.greatest]
        omega
      rw [if_neg Bool.false_ne_true, Integer.saturate_of_ge high]
      decide
    | true =>
      have low : -n ≤ Integer.least := by
        simp only [Integer.least]
        omega
      rw [if_pos rfl, Integer.saturate_of_le low]
      decide
  · rw [if_neg near, integerOfFloat?_eq, if_neg]
    rintro ⟨isFinite, least, most⟩
    have inside := abs_le.mpr ⟨least, most⟩
    rw [Double.ofDecimal_whole negative (by omega)] at isFinite inside
    split_ifs at isFinite inside
    · rcases Double.ofRatio_beyond_step negative (not_le.mp near) with infinite | ⟨-, outside⟩
      · rw [infinite] at isFinite
        cases isFinite
      · exact absurd inside (not_le.mpr outside)
    · cases isFinite

/-! Decimal text. -/

namespace Double

theorem parse?_of_digits {sign ds : List Char} {negative : Bool}
    (read : takeSign (sign ++ ds) = (negative, ds)) (filled : ds ≠ [])
    (digits : ∀ c ∈ ds, c.isDigit = true) :
    parse? (String.ofList (sign ++ ds)) =
      some (ofDecimal negative (Text.digitsValue ds) 0) := by
  have parts := @parse?_of_parts sign ds [] [] [] negative 0 (by simpa using read) filled digits
    (.inl ⟨rfl, rfl⟩) nofun rfl
  simpa using parts

end Double

namespace Integer

/-- Decimal text: digits, at least one, behind an optional sign, with blanks around them. -/
structure Numeral where
  before : List Char
  sign : List Char
  digits : List Char
  after : List Char
  before_blank : ∀ c ∈ before, Text.isBlank c = true
  sign_mem : sign ∈ [[], ['+'], ['-']]
  digits_ne_nil : digits ≠ []
  isDigit : ∀ c ∈ digits, c.isDigit = true
  after_blank : ∀ c ∈ after, Text.isBlank c = true

namespace Numeral
variable (a : Numeral)

def text : String := String.ofList (a.before ++ (a.sign ++ a.digits) ++ a.after)

def negative : Bool := a.sign == ['-']

def value : ℤ := if a.negative then -Text.digitsValue a.digits else Text.digitsValue a.digits

theorem digitsValue_eq : Text.digitsValue a.digits = a.value.natAbs := by
  rw [value]
  split <;> omega

theorem trim_text : Text.trim a.text = String.ofList (a.sign ++ a.digits) := by
  refine Text.trim_of_blanks (by simp [a.digits_ne_nil]) ?_ a.before_blank a.after_blank
  intro c mem
  rcases List.mem_append.mp mem with mark | digit
  · have marks : [[], ['+'], ['-']].all (fun cs => cs.all (! Text.isBlank ·)) = true := by decide
    have each := List.all_eq_true.mp (List.all_eq_true.mp marks a.sign a.sign_mem) c mark
    simpa using each
  · exact Text.isBlank_of_isDigit (a.isDigit c digit)

theorem takeSign_eq : Double.takeSign (a.sign ++ a.digits) = (a.negative, a.digits) := by
  have cases := a.sign_mem
  simp only [List.mem_cons, List.not_mem_nil, or_false] at cases
  rcases cases with none | plus | minus
  · rw [negative, none]
    exact Double.takeSign_of_digit fun d first => a.isDigit d (List.mem_of_head? first)
  · rw [negative, plus]
    rfl
  · rw [negative, minus]
    rfl

theorem digits?_eq : digits? (a.sign ++ a.digits) = some a.value := by
  have all : a.digits.all Char.isDigit = true := List.all_eq_true.mpr a.isDigit
  simp only [digits?, a.takeSign_eq, all, Bool.and_true, Bool.not_eq_true',
    List.isEmpty_eq_false_iff, ne_eq, a.digits_ne_nil, not_false_eq_true, ↓reduceIte, value]

end Numeral
end Integer

namespace Value
variable (a : Integer.Numeral)

theorem cast_text_of_fits (low : -2 ^ 63 ≤ a.value) (high : a.value < 2 ^ 63) :
    (text a.text).cast .integer = .ok (integer (Int64.ofInt a.value)) := by
  have read : Integer.parse? (a.sign ++ a.digits) = some (Int64.ofInt a.value) := by
    have fits : Integer.least ≤ a.value ∧ a.value ≤ Integer.greatest := by
      simp only [Integer.least, Integer.greatest]
      omega
    rw [Integer.parse?, a.digits?_eq, Option.bind_some, Integer.ofInt?, if_pos fits]
  unfold cast
  simp only [a.trim_text, String.toList_ofList, read]

theorem cast_text_of_not_fits (outside : ¬(-2 ^ 63 ≤ a.value ∧ a.value < 2 ^ 63)) :
    (text a.text).cast .integer =
      if a.value.natAbs ≤ 2 ^ 63 + 1024 then .ok (integer (Integer.saturate a.value))
      else .error (.conversion (float (.ofDecimal a.negative a.value.natAbs 0)) .integer) := by
  have read : Integer.parse? (a.sign ++ a.digits) = none := by
    have unfit : ¬(Integer.least ≤ a.value ∧ a.value ≤ Integer.greatest) := by
      simp only [Integer.least, Integer.greatest]
      omega
    rw [Integer.parse?, a.digits?_eq, Option.bind_some, Integer.ofInt?, if_neg unfit]
  have readFloat := Double.parse?_of_digits a.takeSign_eq a.digits_ne_nil a.isDigit
  have cut := integerOfFloat?_ofDecimal a.negative (n := Text.digitsValue a.digits) (by
    rw [a.digitsValue_eq]
    omega)
  rw [← Integer.Numeral.value, a.digitsValue_eq] at cut
  rw [a.digitsValue_eq] at readFloat
  unfold cast
  simp only [a.trim_text, String.toList_ofList, read, readFloat, cut]
  split_ifs <;> rfl

/-- The integer itself, when it fits 64 bits, and a refused conversion otherwise. -/
def ExactOrRefused (n : ℤ) (answer : Except TypeError Value) : Prop :=
  (∃ i : Int64, i.toInt = n ∧ answer = .ok (integer i)) ∨
    (¬∃ i : Int64, i.toInt = n) ∧ ∃ v, answer = .error (.conversion v .integer)

/-- Decimal text becomes the integer it denotes or is refused, exactly if the integer fits 64 bits or
is more than half a step of floats away from those that do. In between it becomes the integer at the
end of the range. -/
theorem cast_numeral_exact_iff :
    let answer := (text a.text).cast .integer
    (ExactOrRefused a.value answer ↔
      a.value < -2 ^ 63 - 1024 ∨ (-2 ^ 63 ≤ a.value ∧ a.value < 2 ^ 63) ∨
        2 ^ 63 + 1024 < a.value) ∧
    (¬ExactOrRefused a.value answer → answer = .ok (integer (Integer.saturate a.value))) := by
  intro answer
  by_cases fits : -2 ^ 63 ≤ a.value ∧ a.value < 2 ^ 63
  · have exact : ExactOrRefused a.value answer :=
      .inl ⟨_, Int64.toInt_ofInt_of_le fits.1 fits.2, cast_text_of_fits a fits.1 fits.2⟩
    exact ⟨iff_of_true exact (.inr (.inl fits)), fun other => absurd exact other⟩
  · have absent : ¬∃ i : Int64, i.toInt = a.value := by
      rintro ⟨i, same⟩
      have low := i.le_toInt
      have high := i.toInt_lt
      omega
    have read : answer = _ := cast_text_of_not_fits a fits
    split_ifs at read with near
    · have other : ¬ExactOrRefused a.value answer := by
        rintro (⟨i, same, -⟩ | ⟨-, v, refused⟩)
        · exact absent ⟨i, same⟩
        · cases read.symm.trans refused
      exact ⟨iff_of_false other (by omega), fun _ => read⟩
    · have refused : ExactOrRefused a.value answer := .inr ⟨absent, _, read⟩
      exact ⟨iff_of_true refused (by omega), fun other => absurd refused other⟩

/-- Zeros in front of a number, its sign and blanks around it do not change what it becomes, be it in
the range or right behind one of its ends. -/
theorem cast_numeral_of_padded_digits :
    ExactOrRefused 42 ((text "\t+0042 ").cast .integer) ∧
    ¬ExactOrRefused (-9223372036854775809) ((text "  -009223372036854775809\n").cast .integer) ∧
    (text "  -009223372036854775809\n").cast .integer =
      .ok (integer (Integer.saturate (-9223372036854775809))) := by
  let inside : Integer.Numeral :=
    { before := ['\t'], sign := ['+'], digits := "0042".toList, after := [' ']
      before_blank := List.all_eq_true.mp (by decide), sign_mem := by decide
      digits_ne_nil := by decide, isDigit := List.all_eq_true.mp (by decide)
      after_blank := List.all_eq_true.mp (by decide) }
  let below : Integer.Numeral :=
    { before := [' ', ' '], sign := ['-'], digits := "009223372036854775809".toList, after := ['\n']
      before_blank := List.all_eq_true.mp (by decide), sign_mem := by decide
      digits_ne_nil := by decide, isDigit := List.all_eq_true.mp (by decide)
      after_blank := List.all_eq_true.mp (by decide) }
  have exact := (cast_numeral_exact_iff inside).1
  obtain ⟨range, saturates⟩ := cast_numeral_exact_iff below
  have outside : ¬ExactOrRefused (-9223372036854775809)
      ((text "  -009223372036854775809\n").cast .integer) := fun held =>
    absurd (range.mp held) (by decide)
  exact ⟨exact.mpr (by decide), outside, saturates outside⟩

/-- The numbers right behind the ends of the range become the ends. -/
theorem next_to_range_not_refused :
    (text "9223372036854775808").cast .integer = .ok (integer 9223372036854775807) ∧
      (text "-9223372036854775809").cast .integer = .ok (integer (-9223372036854775808)) ∧
      ¬ExactOrRefused 9223372036854775808 ((text "9223372036854775808").cast .integer) := by
  have high : (text "9223372036854775808").cast .integer = .ok (integer 9223372036854775807) := by
    decide +kernel
  refine ⟨high, by decide +kernel, ?_⟩
  rw [high]
  rintro (⟨i, same, -⟩ | ⟨-, _, ⟨⟩⟩)
  have := i.toInt_lt
  omega

end Value
end SqlFragment
