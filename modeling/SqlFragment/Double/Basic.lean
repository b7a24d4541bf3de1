/-
Binary floating-point numbers of 64 bits, held exactly. A finite number is a sign, a mantissa and
a power of two; arithmetic takes the exact result as a ratio and rounds it once, to the nearest
number and to the even mantissa on a tie.
-/
namespace SqlFragment

/-- The mantissas and exponents of finite numbers: 53 bits, of which the first is set unless the
exponent is the least one. -/
def Canonical (mantissa : Nat) (exponent : Int) : Prop :=
  mantissa < 0x20000000000000 ∧ -1074 ≤ exponent ∧ exponent ≤ 971 ∧
    (0x10000000000000 ≤ mantissa ∨ exponent = -1074)

instance (mantissa : Nat) (exponent : Int) : Decidable (Canonical mantissa exponent) :=
  inferInstanceAs (Decidable (_ ∧ _))

inductive Double where
  | nan
  | infinity (negative : Bool)
  | finite (negative : Bool) (mantissa : Nat) (exponent : Int)
      (canonical : Canonical mantissa exponent)
deriving DecidableEq

namespace Double

def zero (negative : Bool) : Double := .finite negative 0 (-1074) (by decide)

instance : Inhabited Double := ⟨zero false⟩

/-- The quotient rounded to the nearest number, to the even one on a tie. -/
def roundDiv (num den : Nat) : Nat :=
  let quotient := num / den
  let rest := num % den
  if 2 * rest < den then quotient
  else if den < 2 * rest then quotient + 1
  else if quotient % 2 = 0 then quotient
  else quotient + 1

/-- The ratio `num / den` divided by `2 ^ exponent`, again as a ratio. -/
def scaled (num den : Nat) (exponent : Int) : Nat × Nat :=
  if exponent < 0 then (num * Nat.pow 2 (-exponent).toNat, den)
  else (num, den * Nat.pow 2 exponent.toNat)

/-- The exponent at which the ratio has a mantissa of 53 bits, or the least exponent. -/
def exponentFor (num den : Nat) : Int :=
  let guess : Int := (Nat.log2 num : Int) - Nat.log2 den - 52
  let (n, d) := scaled num den guess
  max (if n / d < 0x10000000000000 then guess - 1 else guess) (-1074)

/-- A mantissa and an exponent as a number; those that are too large become infinite. -/
def ofMantissa (negative : Bool) (mantissa : Nat) (exponent : Int) : Double :=
  let (m, q) :=
    if mantissa = 0x20000000000000 then (0x10000000000000, exponent + 1) else (mantissa, exponent)
  if h : Canonical m q then .finite negative m q h else .infinity negative

/-- The number nearest to `num / den`. -/
def ofRatio (negative : Bool) (num den : Nat) : Double :=
  if num = 0 then zero negative
  else
    let exponent := exponentFor num den
    let (n, d) := scaled num den exponent
    ofMantissa negative (roundDiv n d) exponent

def ofInt (n : Int) : Double := ofRatio (n < 0) n.natAbs 1

def isFinite : Double → Bool
  | .finite .. => true
  | _ => false

def isNegative : Double → Bool
  | .nan => false
  | .infinity negative => negative
  | .finite negative .. => negative

/-- The absolute value of a finite number is `magnitude / denominator`. -/
def magnitude : Double → Nat
  | .finite _ mantissa exponent _ => mantissa * Nat.pow 2 exponent.toNat
  | _ => 0

def denominator : Double → Nat
  | .finite _ _ exponent _ => Nat.pow 2 (-exponent).toNat
  | _ => 1

def numerator (x : Double) : Int := if x.isNegative then -(x.magnitude : Int) else x.magnitude

def isZero (x : Double) : Bool := x.isFinite && x.magnitude == 0

/-- The order of numbers; a NaN is not comparable and the two zeros are equal. -/
def lt : Double → Double → Bool
  | .nan, _ | _, .nan => false
  | .infinity negative, .infinity other => negative && !other
  | .infinity negative, .finite .. => negative
  | .finite .., .infinity negative => !negative
  | x@(.finite ..), y@(.finite ..) => x.numerator * y.denominator < y.numerator * x.denominator

/-- Equality of numbers: a NaN differs from itself and the two zeros are equal. -/
def same : Double → Double → Bool
  | .nan, _ | _, .nan => false
  | .infinity negative, .infinity other => negative == other
  | .infinity _, .finite .. | .finite .., .infinity _ => false
  | x@(.finite ..), y@(.finite ..) => x.numerator * y.denominator == y.numerator * x.denominator

/-- The larger number; a NaN gives way to the other one. -/
def max (x y : Double) : Double := if x = .nan ∨ x.lt y then y else x

/-- The smaller number; a NaN gives way to the other one. -/
def min (x y : Double) : Double := if x = .nan ∨ y.lt x then y else x

def add : Double → Double → Double
  | .nan, _ | _, .nan => .nan
  | .infinity negative, .infinity other => if negative = other then .infinity negative else .nan
  | .infinity negative, _ | _, .infinity negative => .infinity negative
  | x@(.finite ..), y@(.finite ..) =>
    let sum := x.numerator * y.denominator + y.numerator * x.denominator
    if sum = 0 then zero (x.isNegative && y.isNegative)
    else ofRatio (sum < 0) sum.natAbs (x.denominator * y.denominator)

def mul (x y : Double) : Double :=
  let negative := x.isNegative != y.isNegative
  match x, y with
  | .nan, _ | _, .nan => .nan
  | .infinity _, other | other, .infinity _ =>
    if other.isZero then .nan else .infinity negative
  | .finite .., .finite .. =>
    ofRatio negative (x.magnitude * y.magnitude) (x.denominator * y.denominator)

def div (x y : Double) : Double :=
  let negative := x.isNegative != y.isNegative
  match x, y with
  | .nan, _ | _, .nan | .infinity _, .infinity _ => .nan
  | .infinity _, .finite .. => .infinity negative
  | .finite .., .infinity _ => zero negative
  | .finite .., .finite .. =>
    if y.isZero then (if x.isZero then .nan else .infinity negative)
    else ofRatio negative (x.magnitude * y.denominator) (x.denominator * y.magnitude)

/-- The integer next to a finite number on the side of zero. -/
def truncate (x : Double) : Int := Int.tdiv x.numerator x.denominator

def floor (x : Double) : Int := Int.fdiv x.numerator x.denominator

/-- The distance of a finite number to the integer on the side of zero. -/
def fraction (x : Double) : Double :=
  ofRatio false (x.magnitude % x.denominator) x.denominator

def isInteger (x : Double) : Bool := x.isFinite && x.magnitude % x.denominator == 0

end Double
end SqlFragment
