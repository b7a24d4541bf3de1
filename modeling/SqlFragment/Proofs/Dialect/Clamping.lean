import SqlFragment.Dialect.Writer
import SqlFragment.Proofs.Value.Numeral

/-
Integers brought back within bounds. A bound is first cut off to an integer on the side of zero:
that is the nearest integer inside for a lower bound below zero and for an upper bound above it,
and the nearest one outside for the others.
-/
namespace SqlFragment

namespace Integer

theorem toInt_saturate (z : ℤ) : (saturate z).toInt = max least (min z greatest) := by
  refine Int64.toInt_ofInt_of_le ?_ ?_ <;> simp only [least, greatest] <;> omega

theorem toInt_bounds (n : Int64) : -2 ^ 63 ≤ (n.toInt : ℚ) ∧ (n.toInt : ℚ) ≤ 2 ^ 63 :=
  ⟨by exact_mod_cast n.le_toInt, by exact_mod_cast n.toInt_lt.le⟩

theorem toString_inj {m n : Int64} (same : toString m.toInt = toString n.toInt) : m = n := by
  have read := parse?_toString m
  rw [same, parse?_toString] at read
  exact (Option.some.inj read).symm

theorem exists_toInt_eq {z : ℤ} (low : -2 ^ 63 ≤ z) (high : z < 2 ^ 63) :
    ∃ j : Int64, j.toInt = z := ⟨_, Int64.toInt_ofInt_of_le low high⟩

/-- The integer that a bound is cut off to: no integer lies between the two, and it is on the side
of zero. -/
structure Cut (q : ℚ) (i : Int64) : Prop where
  below : ∀ j : Int64, q ≤ j.toInt → i.toInt ≤ j.toInt
  above : ∀ j : Int64, j.toInt ≤ q → j.toInt ≤ i.toInt
  le_of_nonneg : 0 ≤ q → i.toInt ≤ q
  ge_of_nonpos : q ≤ 0 → q ≤ i.toInt

theorem cut_self (n : Int64) : Cut n.toInt n :=
  ⟨fun _ => Int.cast_le.mp, fun _ => Int.cast_le.mp, fun _ => le_rfl, fun _ => le_rfl⟩

theorem cut_float (x : Double) : Cut x.value (saturate x.truncate) := by
  have range (j : Int64) : least ≤ j.toInt ∧ j.toInt ≤ greatest := ⟨j.le_toInt, j.toInt_le⟩
  have zero : least ≤ 0 ∧ 0 ≤ greatest := by decide
  -- the limits are on either side of zero, so saturating goes toward zero as well
  rcases le_total 0 x.value with nonneg | nonpos
  · have floor : 0 ≤ ⌊x.value⌋ := Int.floor_nonneg.mpr nonneg
    have cut : (saturate x.truncate).toInt = min ⌊x.value⌋ greatest := by
      rw [toInt_saturate, Double.truncate_of_nonneg nonneg]
      omega
    have le : ((saturate x.truncate).toInt : ℚ) ≤ x.value :=
      Int.le_floor.mp (cut.trans_le (min_le_left _ _))
    refine ⟨fun j bounded => Int.cast_le.mp (le.trans bounded), ?_, fun _ => le, ?_⟩
    · intro j bounded
      rw [cut]
      exact le_min (Int.le_floor.mpr bounded) (range j).2
    · intro nonpos
      rw [cut]
      exact nonpos.trans (Int.cast_nonneg (le_min floor zero.2))
  · have ceil : ⌈x.value⌉ ≤ 0 := Int.ceil_le.mpr (by exact_mod_cast nonpos)
    have cut : (saturate x.truncate).toInt = max least ⌈x.value⌉ := by
      rw [toInt_saturate, Double.truncate_of_nonpos nonpos]
      omega
    have le : x.value ≤ (saturate x.truncate).toInt :=
      Int.ceil_le.mp ((le_max_right _ _).trans_eq cut.symm)
    refine ⟨?_, fun j bounded => Int.cast_le.mp (bounded.trans le), ?_, fun _ => le⟩
    · intro j bounded
      rw [cut]
      exact max_le (range j).1 (Int.ceil_le.mpr bounded)
    · intro nonneg
      rw [cut]
      exact (Int.cast_nonpos.mpr (max_le zero.1 ceil)).trans nonneg

variable {q : ℚ} {i r : Int64}

/-- A lower bound that leaves room is cut off inside, unless it has a fraction above zero. -/
theorem Cut.le_iff (cut : Cut q i) (room : q ≤ r.toInt) :
    q ≤ i.toInt ↔ q ≤ 0 ∨ ∃ z : ℤ, q = z := by
  constructor
  · intro le
    exact (le_total q 0).imp_right fun nonneg => ⟨_, le_antisymm le (cut.le_of_nonneg nonneg)⟩
  · rintro (nonpos | ⟨z, rfl⟩)
    · exact cut.ge_of_nonpos nonpos
    · rcases le_total z 0 with nonpos | nonneg
      · exact cut.ge_of_nonpos (Int.cast_nonpos.mpr nonpos)
      · have limit := r.toInt_lt
        have within : z ≤ r.toInt := Int.cast_le.mp room
        obtain ⟨j, rfl⟩ := exists_toInt_eq (z := z) (by omega) (by omega)
        exact Int.cast_le.mpr (cut.above j le_rfl)

/-- An upper bound that leaves room is cut off inside, unless it has a fraction below zero. -/
theorem Cut.ge_iff (cut : Cut q i) (room : r.toInt ≤ q) :
    i.toInt ≤ q ↔ 0 ≤ q ∨ ∃ z : ℤ, q = z := by
  constructor
  · intro le
    exact (le_total 0 q).imp_right fun nonpos => ⟨_, le_antisymm (cut.ge_of_nonpos nonpos) le⟩
  · rintro (nonneg | ⟨z, rfl⟩)
    · exact cut.le_of_nonneg nonneg
    · rcases le_total 0 z with nonneg | nonpos
      · exact cut.le_of_nonneg (Int.cast_nonneg nonneg)
      · have limit := r.le_toInt
        have within : r.toInt ≤ z := Int.cast_le.mp room
        obtain ⟨j, rfl⟩ := exists_toInt_eq (z := z) (by omega) (by omega)
        exact Int.cast_le.mpr (cut.below j le_rfl)

end Integer

def Value.number? : Value → Option ℚ
  | .integer n => some n.toInt
  | .float x => if x.isFinite then some x.value else none
  | _ => none

namespace Value
variable {b : Value} {q : ℚ}

/-- A bound is converted by cutting it off, exactly if it is not beyond the integers of 64 bits. -/
theorem cast_bound (number : b.number? = some q) :
    (-2 ^ 63 ≤ q ∧ q ≤ 2 ^ 63 → ∃ i, b.cast .integer = .ok (integer i) ∧ Integer.Cut q i) ∧
      (¬(-2 ^ 63 ≤ q ∧ q ≤ 2 ^ 63) → b.cast .integer = .error (.conversion b .integer)) := by
  cases b with
  | integer n =>
    obtain rfl := Option.some.inj number
    exact ⟨fun _ => ⟨n, rfl, Integer.cut_self n⟩,
      fun outside => absurd (Integer.toInt_bounds n) outside⟩
  | float x =>
    simp only [number?, Option.ite_none_right_eq_some, Option.some.injEq] at number
    obtain ⟨isFinite, rfl⟩ := number
    unfold cast
    simp only [integerOfFloat?_eq, isFinite, true_and]
    constructor
    · intro inside
      exact ⟨_, by simp only [inside, and_self, ↓reduceIte, Option.map_some], Integer.cut_float x⟩
    · intro outside
      simp only [outside, ↓reduceIte, Option.map_none]
  | _ => cases number

end Value

namespace Writer

/-- A bound that is given is a number with the property. -/
def Bounded (b : Option Value) (P : ℚ → Prop) : Prop := ∀ v ∈ b, ∃ q, v.number? = some q ∧ P q

def AtLeast (low : Option Value) (n : Int64) : Prop := Bounded low (· ≤ (n.toInt : ℚ))

def AtMost (high : Option Value) (n : Int64) : Prop := Bounded high ((n.toInt : ℚ) ≤ ·)

/-- The number that an optional bound stands for; one that is missing stands for a limit of the
integers. -/
def Stands (limit : Int64) (b : Option Value) (q : ℚ) : Prop :=
  b = none ∧ q = limit.toInt ∨ ∃ v, b = some v ∧ v.number? = some q

/-- The integer that an optional bound is converted to, or the limit. -/
def Converts (limit : Int64) (b : Option Value) (i : Int64) : Prop :=
  bound b .integer = .ok none ∧ i = limit ∨ bound b .integer = .ok (some (.integer i))

section
variable {limit : Int64} {b : Option Value} {q : ℚ} {P : ℚ → Prop}

theorem bounded_some_iff {v : Value} (number : v.number? = some q) :
    Bounded (some v) P ↔ P q := by
  constructor
  · intro bounded
    obtain ⟨q', number', holds⟩ := bounded v rfl
    obtain rfl := Option.some.inj (number.symm.trans number')
    exact holds
  · rintro holds _ ⟨rfl⟩
    exact ⟨q, number, holds⟩

theorem exists_stands (limit : Int64) (bounded : Bounded b P) : ∃ q, Stands limit b q := by
  cases b with
  | none => exact ⟨_, .inl ⟨rfl, rfl⟩⟩
  | some v =>
    obtain ⟨q, number, -⟩ := bounded v rfl
    exact ⟨q, .inr ⟨v, rfl, number⟩⟩

theorem Stands.bounded_iff (stands : Stands limit b q) (atLimit : P limit.toInt) :
    Bounded b P ↔ P q := by
  rcases stands with ⟨rfl, rfl⟩ | ⟨v, rfl, number⟩
  · refine iff_of_true ?_ atLimit
    rintro _ ⟨⟩
  · exact bounded_some_iff number

theorem Stands.converts (stands : Stands limit b q) (low : -2 ^ 63 ≤ q) (high : q ≤ 2 ^ 63) :
    ∃ i, Converts limit b i ∧ Integer.Cut q i := by
  rcases stands with ⟨rfl, rfl⟩ | ⟨v, rfl, number⟩
  · exact ⟨limit, .inl ⟨rfl, rfl⟩, Integer.cut_self limit⟩
  · obtain ⟨i, converted, cut⟩ := (Value.cast_bound number).1 ⟨low, high⟩
    refine ⟨i, .inr ?_, cut⟩
    rw [bound, converted]
    rfl

theorem Stands.refused (stands : Stands limit b q) (outside : ¬(-2 ^ 63 ≤ q ∧ q ≤ 2 ^ 63)) :
    ∃ e, bound b .integer = .error e := by
  rcases stands with ⟨rfl, rfl⟩ | ⟨v, rfl, number⟩
  · exact absurd (Integer.toInt_bounds limit) outside
  · refine ⟨.type (.conversion v .integer), ?_⟩
    rw [bound, (Value.cast_bound number).2 outside]
    rfl

end

section
variable {low high : Option Value} {i k : Int64} (n : Int64)

theorem clamp_of_converts (lower : Converts Int64.minValue low i)
    (upper : Converts Int64.maxValue high k) :
    ∃ m : Int64, clamp (.integer n) low high = .ok (.integer m) ∧
      m.toInt = min (max n.toInt i.toInt) k.toInt := by
  refine ⟨if k.toInt < (if n.toInt < i.toInt then i else n).toInt then k
    else if n.toInt < i.toInt then i else n, ?_, by split_ifs <;> omega⟩
  have least : ¬n.toInt < Int64.minValue.toInt := not_lt.mpr n.minValue_le_toInt
  have most (j : Int64) : ¬Int64.maxValue.toInt < j.toInt := not_lt.mpr j.toInt_le
  rcases lower with ⟨lower, rfl⟩ | lower <;> rcases upper with ⟨upper, rfl⟩ | upper <;>
    simp only [clamp, lower, upper, least, most, ↓reduceIte] <;> rfl

theorem clamp_of_refused_low {e : DialectError} (refused : bound low .integer = .error e) :
    clamp (.integer n) low high = .error e := by
  simp only [clamp, refused]
  rfl

theorem clamp_of_refused_high {e : DialectError} (lower : Converts Int64.minValue low i)
    (refused : bound high .integer = .error e) : clamp (.integer n) low high = .error e := by
  rcases lower with ⟨lower, -⟩ | lower <;> simp only [clamp, lower, refused] <;> rfl

/-- A bound beyond the integers is refused, also where it leaves all of them. -/
theorem clamp_of_beyond {l h : ℚ} (lower : Stands Int64.minValue low l)
    (upper : Stands Int64.maxValue high h) (room : l ≤ 2 ^ 63)
    (beyond : ¬(-2 ^ 63 ≤ l ∧ h ≤ 2 ^ 63)) : ∃ e, clamp (.integer n) low high = .error e := by
  by_cases fits : -2 ^ 63 ≤ l
  · obtain ⟨i, converted, -⟩ := lower.converts fits room
    obtain ⟨e, refused⟩ := upper.refused fun inside => beyond ⟨fits, inside.2⟩
    exact ⟨e, clamp_of_refused_high n converted refused⟩
  · obtain ⟨e, refused⟩ := lower.refused fun inside => fits inside.1
    exact ⟨e, clamp_of_refused_low n refused⟩

end

section
variable {l h : ℚ} {i k n m r : Int64} (lower : Integer.Cut l i) (upper : Integer.Cut h k)
  (clamped : m.toInt = min (max n.toInt i.toInt) k.toInt)
include lower upper clamped

theorem low_kept_iff (lowRoom : l ≤ r.toInt) (highRoom : r.toInt ≤ h) :
    l ≤ m.toInt ↔ l ≤ n.toInt ∨ l ≤ 0 ∨ ∃ z : ℤ, l = z := by
  have inside : l ≤ k.toInt := lowRoom.trans (Int.cast_le.mpr (upper.above r highRoom))
  rw [clamped, Int.cast_min, Int.cast_max, le_min_iff, le_max_iff, and_iff_left inside,
    lower.le_iff lowRoom]

theorem high_kept_iff (lowRoom : l ≤ r.toInt) (highRoom : r.toInt ≤ h) :
    m.toInt ≤ h ↔ n.toInt ≤ h ∨ 0 ≤ h ∨ ∃ z : ℤ, h = z := by
  have inside : i.toInt ≤ h := (Int.cast_le.mpr (lower.below r lowRoom)).trans highRoom
  rw [clamped, Int.cast_min, Int.cast_max, min_le_iff, max_le_iff, and_iff_left inside,
    upper.ge_iff highRoom]

theorem eq_of_within (low : l ≤ n.toInt) (high : n.toInt ≤ h) : m = n := by
  rw [← Int64.toInt_inj, clamped, max_eq_left (lower.below n low), min_eq_left (upper.above n high)]

end

theorem clampedLiteral_integer (w : Writer) (n : Int64) (low high : Option Value) :
    w.clampedLiteral (.integer n) .integer low high =
      (clamp (.integer n) low high).bind w.write := rfl

/-- An integer is written within its bounds, wherever an integer fits between them, exactly if no
bound is beyond the integers of 64 bits, and no bound that the integer violates has a fraction and
is cut off to the outside: a lower one above zero or an upper one below zero. -/
theorem clampedLiteral_within_iff (w : Writer) (n : Int64) (low high : Option Value)
    (room : ∃ r, AtLeast low r ∧ AtMost high r) :
    (∃ m : Int64, w.clampedLiteral (.integer n) .integer low high = .ok (toString m.toInt) ∧
        AtLeast low m ∧ AtMost high m ∧ (AtLeast low n → AtMost high n → m = n)) ↔
      Bounded low (fun l => -2 ^ 63 ≤ l ∧ (l ≤ n.toInt ∨ l ≤ 0 ∨ ∃ z : ℤ, l = z)) ∧
      Bounded high (fun h => h ≤ 2 ^ 63 ∧ (n.toInt ≤ h ∨ 0 ≤ h ∨ ∃ z : ℤ, h = z)) := by
  obtain ⟨r, lowRoom, highRoom⟩ := room
  -- with the limits in place of missing bounds, all is about the two numbers `l` and `h`
  obtain ⟨l, lowStands⟩ := exists_stands Int64.minValue lowRoom
  obtain ⟨h, highStands⟩ := exists_stands Int64.maxValue highRoom
  have atLeast (j : Int64) : AtLeast low j ↔ l ≤ j.toInt :=
    lowStands.bounded_iff (Int.cast_le.mpr j.minValue_le_toInt)
  have atMost (j : Int64) : AtMost high j ↔ j.toInt ≤ h :=
    highStands.bounded_iff (Int.cast_le.mpr j.toInt_le)
  rw [lowStands.bounded_iff ⟨(Integer.toInt_bounds _).1, .inr (.inr ⟨_, rfl⟩)⟩,
    highStands.bounded_iff ⟨(Integer.toInt_bounds _).2, .inr (.inr ⟨_, rfl⟩)⟩]
  rw [atLeast] at lowRoom
  rw [atMost] at highRoom
  simp only [atLeast, atMost]
  have lowInside := lowRoom.trans (Integer.toInt_bounds r).2
  have highInside := (Integer.toInt_bounds r).1.trans highRoom
  by_cases inside : -2 ^ 63 ≤ l ∧ h ≤ 2 ^ 63
  · obtain ⟨i, lower, lowCut⟩ := lowStands.converts inside.1 lowInside
    obtain ⟨k, upper, highCut⟩ := highStands.converts highInside inside.2
    obtain ⟨m, brought, clamped⟩ := clamp_of_converts n lower upper
    have written : w.clampedLiteral (.integer n) .integer low high = .ok (toString m.toInt) := by
      rw [clampedLiteral_integer, brought]
      rfl
    have lowKept := low_kept_iff lowCut highCut clamped lowRoom highRoom
    have highKept := high_kept_iff lowCut highCut clamped lowRoom highRoom
    constructor
    · rintro ⟨m', written', low', high', -⟩
      obtain rfl := Integer.toString_inj (Except.ok.inj (written.symm.trans written'))
      exact ⟨⟨inside.1, lowKept.mp low'⟩, inside.2, highKept.mp high'⟩
    · rintro ⟨⟨-, low'⟩, -, high'⟩
      exact ⟨m, written, lowKept.mpr low', highKept.mpr high', eq_of_within lowCut highCut clamped⟩
  · obtain ⟨e, refused⟩ := clamp_of_beyond n lowStands highStands lowInside inside
    refine iff_of_false ?_ fun both => inside ⟨both.1.1, both.2.1⟩
    rintro ⟨m, written, -⟩
    rw [clampedLiteral_integer, refused] at written
    cases written

def half (negative : Bool) : Value := .float (.finite negative 0x10000000000000 (-53) (by decide))

theorem number?_half (negative : Bool) :
    (half negative).number? = some (Double.signed negative (1 / 2)) := by
  refine congrArg some ?_
  rw [Double.value_finite]
  norm_num

theorem atLeast_half_iff (negative : Bool) (n : Int64) :
    AtLeast (some (half negative)) n ↔ Double.signed negative (1 / 2) ≤ n.toInt :=
  bounded_some_iff (number?_half negative)

theorem atMost_half_iff (negative : Bool) (n : Int64) :
    AtMost (some (half negative)) n ↔ n.toInt ≤ Double.signed negative (1 / 2) :=
  bounded_some_iff (number?_half negative)

/-- Between minus a half and a half there is zero. -/
theorem clampedLiteral_within_halves :
    let w : Writer := ⟨.generic, none⟩
    (∃ r, AtLeast (some (half true)) r ∧ AtMost (some (half false)) r) ∧
      w.clampedLiteral (.integer 7) .integer (some (half true)) (some (half false)) = .ok "0" ∧
      ∃ m : Int64, w.clampedLiteral (.integer 7) .integer (some (half true)) (some (half false)) =
          .ok (toString m.toInt) ∧ AtLeast (some (half true)) m ∧ AtMost (some (half false)) m := by
  intro w
  have room : ∃ r, AtLeast (some (half true)) r ∧ AtMost (some (half false)) r := by
    refine ⟨0, (atLeast_half_iff ..).mpr ?_, (atMost_half_iff ..).mpr ?_⟩ <;>
      norm_num [Double.signed, Int64.toInt_zero]
  have kept := (clampedLiteral_within_iff w 7 _ _ room).mpr
    ⟨(bounded_some_iff (number?_half _)).mpr (by norm_num [Double.signed]),
      (bounded_some_iff (number?_half _)).mpr (by norm_num [Double.signed])⟩
  obtain ⟨m, written, low, high, -⟩ := kept
  exact ⟨room, by decide +kernel, m, written, low, high⟩

/-- A lower bound of a half is cut off to zero, and so is an upper bound of minus a half: zero is
written between a half and one and between minus one and minus a half. A lower bound far below the
integers is refused. -/
theorem zero_written_outside_bounds :
    let w : Writer := ⟨.generic, none⟩
    let far : Value := .float (.finite true 0x10000000000000 12 (by decide))
    (w.clampedLiteral (.integer 0) .integer (some (half false)) (some (.integer 1)) = .ok "0" ∧
      AtLeast (some (half false)) 1 ∧ AtMost (some (.integer 1)) 1 ∧
      ¬AtLeast (some (half false)) 0) ∧
    (w.clampedLiteral (.integer 5) .integer (some (.integer (-1))) (some (half true)) = .ok "0" ∧
      AtLeast (some (.integer (-1))) (-1) ∧ AtMost (some (half true)) (-1) ∧
      ¬AtMost (some (half true)) 0) ∧
    w.clampedLiteral (.integer 0) .integer (some far) none =
      .error (.type (.conversion far .integer)) ∧ AtLeast (some far) 0 := by
  intro w far
  have distance : far.number? = some (-2 ^ 64) := by
    refine congrArg some ?_
    rw [Double.value_finite]
    norm_num [Double.signed]
  have minusOne : (-1 : Int64).toInt = -1 := by decide
  simp only [atLeast_half_iff, atMost_half_iff]
  refine ⟨⟨by decide +kernel, ?_, (bounded_some_iff rfl).mpr le_rfl, ?_⟩,
    ⟨by decide +kernel, (bounded_some_iff rfl).mpr le_rfl, ?_, ?_⟩,
    by decide +kernel, (bounded_some_iff distance).mpr ?_⟩
  all_goals norm_num [Double.signed, Int64.toInt_zero, Int64.toInt_one, minusOne]

end Writer
end SqlFragment
