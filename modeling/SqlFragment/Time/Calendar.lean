/-
The Gregorian calendar, extended in both directions, with a year zero. Days are numbered from the
first of January 1970.
-/
namespace SqlFragment

structure Date where
  year : Int
  month : Nat
  day : Nat
deriving DecidableEq, Repr

namespace Date

def isLeap (year : Int) : Bool := year % 4 == 0 && (year % 100 != 0 || year % 400 == 0)

def monthLengths (leap : Bool) : List Nat :=
  [31, if leap then 29 else 28, 31, 30, 31, 30, 31, 31, 30, 31, 30, 31]

/-- The months and days of the calendar, in the years that timestamps cover. -/
def Valid (d : Date) : Prop :=
  -262143 ≤ d.year ∧ d.year ≤ 262142 ∧ 1 ≤ d.month ∧ d.month ≤ 12 ∧ 1 ≤ d.day ∧
    d.day ≤ (monthLengths (isLeap d.year)).getD (d.month - 1) 0

instance (d : Date) : Decidable d.Valid := inferInstanceAs (Decidable (_ ∧ _))

def ofYmd? (year : Int) (month day : Nat) : Option Date :=
  let d : Date := ⟨year, month, day⟩
  if d.Valid then some d else none

/-- The days from the first day of year one to the first day of `year`. -/
def daysBeforeYear (year : Int) : Int :=
  let y := year - 1
  365 * y + y / 4 - y / 100 + y / 400

/-- The number of the first of January 1970 when year one starts with day zero. -/
def epochDay : Int := 719162

def toDayNumber (d : Date) : Int :=
  daysBeforeYear d.year - epochDay +
    (((monthLengths (isLeap d.year)).take (d.month - 1)).foldr Nat.add 0 : Nat) + (d.day : Int) - 1

def yearOfDay (n : Int) : Int :=
  let guess := 400 * n / 146097 + 1
  if n < daysBeforeYear guess then guess - 1
  else if daysBeforeYear (guess + 1) ≤ n then guess + 1
  else guess

/-- The month and the day of the month, both from one, at `rest` days after the start of `month`. -/
def monthOfDay (month : Nat) : List Nat → Nat → Nat × Nat
  | [], rest => (month, rest + 1)
  | length :: lengths, rest =>
    if rest < length then (month, rest + 1) else monthOfDay (month + 1) lengths (rest - length)

def ofDayNumber (day : Int) : Date :=
  let n := day + epochDay
  let year := yearOfDay n
  let (month, dayOfMonth) :=
    monthOfDay 1 (monthLengths (isLeap year)) (n - daysBeforeYear year).toNat
  ⟨year, month, dayOfMonth⟩

end Date
end SqlFragment
