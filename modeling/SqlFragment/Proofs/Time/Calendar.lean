import SqlFragment.Time.Calendar

/-
The calendar counts every day once: a date is found again from the number of its day, and every
number is that of a day.
-/
namespace SqlFragment.Date

def yearLength (year : Int) : Nat := if isLeap year then 366 else 365

theorem daysBeforeYear_succ (year : Int) :
    daysBeforeYear (year + 1) = daysBeforeYear year + yearLength year := by
  simp only [daysBeforeYear, yearLength, isLeap, Bool.and_eq_true, Bool.or_eq_true, beq_iff_eq,
    bne_iff_ne]
  split <;> omega

theorem yearOfDay_eq {year n : Int} (start : daysBeforeYear year ≤ n)
    (stop : n < daysBeforeYear (year + 1)) : yearOfDay n = year := by
  have near : 400 * n / 146097 + 1 = year - 1 ∨ 400 * n / 146097 + 1 = year ∨
      400 * n / 146097 + 1 = year + 1 := by
    simp only [daysBeforeYear] at start stop
    omega
  simp only [yearOfDay]
  obtain early | same | late := near
  · rw [early]
    have before : ¬n < daysBeforeYear (year - 1) := by
      simp only [daysBeforeYear] at start ⊢
      omega
    rw [if_neg before, if_pos (by rwa [Int.sub_add_cancel])]
    omega
  · rw [same, if_neg (by omega), if_neg (by omega)]
  · rw [late, if_pos stop]
    omega

theorem foldr_add_cons (n : Nat) (ns : List Nat) :
    (n :: ns).foldr Nat.add 0 = n + ns.foldr Nat.add 0 := rfl

theorem monthOfDay_eq {lengths : List Nat} {index day : Nat} (start : Nat)
    (inside : day < lengths.getD index 0) :
    monthOfDay start lengths ((lengths.take index).foldr Nat.add 0 + day) =
      (start + index, day + 1) := by
  induction lengths generalizing index start with
  | nil => simp at inside
  | cons length lengths ih =>
    cases index with
    | zero =>
      have here : day < length := by simpa using inside
      simp [monthOfDay, here]
    | succ index =>
      have later : day < lengths.getD index 0 := by simpa using inside
      have beyond : ¬length + (lengths.take index).foldr Nat.add 0 + day < length := by omega
      have rest : length + (lengths.take index).foldr Nat.add 0 + day - length =
          (lengths.take index).foldr Nat.add 0 + day := by omega
      rw [List.take_succ_cons, foldr_add_cons, monthOfDay, if_neg beyond, rest,
        ih (start + 1) later, Nat.add_assoc start 1 index, Nat.add_comm 1 index]

theorem monthLength_le (leap : Bool) (index : Nat) : (monthLengths leap).getD index 0 ≤ 31 := by
  have each : ∀ n ∈ monthLengths leap, n ≤ 31 := by cases leap <;> decide
  rw [List.getD_eq_getElem?_getD]
  cases found : (monthLengths leap)[index]? with
  | none => exact Nat.zero_le 31
  | some n => exact each n (List.mem_of_getElem? found)

theorem sum_monthLengths (year : Int) :
    (monthLengths (isLeap year)).foldr Nat.add 0 = yearLength year := by
  unfold yearLength
  cases isLeap year <;> rfl

theorem take_add_lt {lengths : List Nat} {index day : Nat} (inside : day < lengths.getD index 0) :
    (lengths.take index).foldr Nat.add 0 + day < lengths.foldr Nat.add 0 := by
  induction lengths generalizing index with
  | nil => simp at inside
  | cons length lengths ih =>
    rw [foldr_add_cons]
    cases index with
    | zero =>
      have here : day < length := by simpa using inside
      rw [List.take_zero, List.foldr_nil]
      omega
    | succ index =>
      have later := ih (by simpa using inside : day < lengths.getD index 0)
      rw [List.take_succ_cons, foldr_add_cons]
      omega

/-- The number of a day lies between the first days of its year and of the next one. -/
theorem toDayNumber_bounds {d : Date} (valid : d.Valid) :
    daysBeforeYear d.year ≤ d.toDayNumber + epochDay ∧
      d.toDayNumber + epochDay < daysBeforeYear (d.year + 1) := by
  obtain ⟨-, -, -, -, firstDay, lastDay⟩ := valid
  have inside : d.day - 1 < (monthLengths (isLeap d.year)).getD (d.month - 1) 0 := by omega
  have bound := take_add_lt inside
  rw [sum_monthLengths] at bound
  have next := daysBeforeYear_succ d.year
  simp only [toDayNumber]
  omega

/-- A date is found again from the number of its day. -/
theorem ofDayNumber_toDayNumber {d : Date} (valid : d.Valid) : ofDayNumber d.toDayNumber = d := by
  have year : yearOfDay (d.toDayNumber + epochDay) = d.year :=
    yearOfDay_eq (toDayNumber_bounds valid).1 (toDayNumber_bounds valid).2
  obtain ⟨-, -, firstMonth, -, firstDay, lastDay⟩ := valid
  have inside : d.day - 1 < (monthLengths (isLeap d.year)).getD (d.month - 1) 0 := by omega
  have month := monthOfDay_eq 1 inside
  have number : d.toDayNumber + epochDay = daysBeforeYear d.year +
      (((monthLengths (isLeap d.year)).take (d.month - 1)).foldr Nat.add 0 + (d.day - 1) : Nat) := by
    simp only [toDayNumber]
    omega
  have rest : (d.toDayNumber + epochDay - daysBeforeYear d.year).toNat =
      ((monthLengths (isLeap d.year)).take (d.month - 1)).foldr Nat.add 0 + (d.day - 1) := by omega
  have monthBack : 1 + (d.month - 1) = d.month := by omega
  have dayBack : d.day - 1 + 1 = d.day := by omega
  simp only [ofDayNumber, year, rest, month, monthBack, dayBack]

theorem yearOfDay_bounds (n : Int) :
    daysBeforeYear (yearOfDay n) ≤ n ∧ n < daysBeforeYear (yearOfDay n + 1) := by
  have near : daysBeforeYear (400 * n / 146097 + 1 - 1) ≤ n ∧
      n < daysBeforeYear (400 * n / 146097 + 1 + 1 + 1) := by
    simp only [daysBeforeYear]
    omega
  simp only [yearOfDay]
  split
  · rename_i early
    rw [Int.sub_add_cancel]
    exact ⟨near.1, early⟩
  · rename_i started
    split
    · rename_i late
      exact ⟨late, near.2⟩
    · rename_i here
      exact ⟨by omega, by omega⟩

theorem exists_month {lengths : List Nat} {rest : Nat} (inside : rest < lengths.foldr Nat.add 0) :
    ∃ index day, index < lengths.length ∧ day < lengths.getD index 0 ∧
      rest = (lengths.take index).foldr Nat.add 0 + day := by
  induction lengths generalizing rest with
  | nil => exact absurd inside (Nat.not_lt_zero rest)
  | cons length lengths ih =>
    rw [foldr_add_cons] at inside
    by_cases first : rest < length
    · exact ⟨0, rest, Nat.succ_pos _, first, (Nat.zero_add rest).symm⟩
    · obtain ⟨index, day, bound, within, split⟩ := ih (by omega : rest - length < _)
      refine ⟨index + 1, day, Nat.succ_lt_succ bound, within, ?_⟩
      rw [List.take_succ_cons, foldr_add_cons]
      omega

/-- Every day number is that of a day of the calendar. -/
theorem ofDayNumber_spec (n : Int) :
    1 ≤ (ofDayNumber n).month ∧ (ofDayNumber n).month ≤ 12 ∧ 1 ≤ (ofDayNumber n).day ∧
      (ofDayNumber n).day ≤
        (monthLengths (isLeap (ofDayNumber n).year)).getD ((ofDayNumber n).month - 1) 0 ∧
      (ofDayNumber n).toDayNumber = n := by
  obtain ⟨start, stop⟩ := yearOfDay_bounds (n + epochDay)
  rw [daysBeforeYear_succ, ← sum_monthLengths] at stop
  obtain ⟨index, day, bound, within, split⟩ := exists_month
    (by omega : (n + epochDay - daysBeforeYear (yearOfDay (n + epochDay))).toNat <
      (monthLengths (isLeap (yearOfDay (n + epochDay)))).foldr Nat.add 0)
  have months : index < 12 := bound
  have date : ofDayNumber n = ⟨yearOfDay (n + epochDay), 1 + index, day + 1⟩ := by
    simp only [ofDayNumber, split, monthOfDay_eq 1 within]
  have position : 1 + index - 1 = index := by omega
  rw [date]
  dsimp only
  rw [position]
  refine ⟨by omega, by omega, by omega, within, ?_⟩
  simp only [toDayNumber, position]
  omega

end SqlFragment.Date
