import SqlFragment.Double.Basic

/-
The fewest decimal digits that read back as a given number. The reals that round to a number form
an interval around it; the digits are those of the first decimal grid with a point inside.
-/
namespace SqlFragment.Double

/-- A non-negative ratio, compared by cross-multiplication. -/
structure Ratio where
  num : Nat
  den : Nat

namespace Ratio

def le (a b : Ratio) : Bool := a.num * b.den ≤ b.num * a.den

def lt (a b : Ratio) : Bool := a.num * b.den < b.num * a.den

/-- The ratio `n * base ^ exponent`. -/
def ofPower (n base : Nat) (exponent : Int) : Ratio :=
  ⟨n * Nat.pow base exponent.toNat, Nat.pow base (-exponent).toNat⟩

end Ratio

/-- The reals that round to `mantissa * 2 ^ exponent`. Its ends, half a step away, belong to it
when the mantissa is even; below a power of two the step is half as wide. -/
structure RoundingInterval where
  low : Ratio
  high : Ratio
  closed : Bool

def roundingInterval (mantissa : Nat) (exponent : Int) : RoundingInterval :=
  let below := if mantissa = 0x10000000000000 ∧ -1074 < exponent then 1 else 2
  { low := .ofPower (4 * mantissa - below) 2 (exponent - 2)
    high := .ofPower (4 * mantissa + 2) 2 (exponent - 2)
    closed := mantissa % 2 == 0 }

def RoundingInterval.holds (i : RoundingInterval) (r : Ratio) : Bool :=
  if i.closed then i.low.le r && r.le i.high else i.low.lt r && r.lt i.high

/-- The `k` with `10 ^ (k - 1) ≤ value < 10 ^ k`, for the values of finite numbers. -/
def decimalPoint (value : Ratio) : Int :=
  ((Nat.toDigits 10 (value.num * Nat.pow 10 330 / value.den)).length : Int) - 330

/-- The point of the grid of multiples of `10 ^ exponent` that is nearest to the value among those
inside the interval; of two equally near ones the upper. -/
def nearestOnGrid (interval : RoundingInterval) (value : Ratio) (exponent : Int) : Option Nat :=
  let grid := Ratio.ofPower 1 10 exponent
  let lower := value.num * grid.den / (value.den * grid.num)
  let upper := lower + 1
  let lowerFits := interval.holds (.ofPower lower 10 exponent)
  let upperFits := interval.holds (.ofPower upper 10 exponent)
  let middle := Ratio.mk ((2 * lower + 1) * grid.num) (2 * grid.den)
  if lowerFits && (!upperFits || value.lt middle) then some lower
  else if upperFits then some upper
  else none

structure Decimal where
  digits : Nat
  exponent : Int

def Decimal.reduce : Nat → Decimal → Decimal
  | 0, d => d
  | fuel + 1, d =>
    if d.digits ≠ 0 ∧ d.digits % 10 = 0 then
      Decimal.reduce fuel ⟨d.digits / 10, d.exponent + 1⟩
    else d

/-- The shortest decimal that reads back as `mantissa * 2 ^ exponent`, a non-zero number. Seventeen
digits always suffice. -/
def shortest (mantissa : Nat) (exponent : Int) : Decimal :=
  let value := Ratio.ofPower mantissa 2 exponent
  let interval := roundingInterval mantissa exponent
  let point := decimalPoint value
  let found := (List.range 17).findSome? fun i =>
    let e := point - (i + 1 : Nat)
    (nearestOnGrid interval value e).map fun d => Decimal.mk d e
  Decimal.reduce 20 (found.getD ⟨value.num, 0⟩)

end SqlFragment.Double
