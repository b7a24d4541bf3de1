import SqlFragment.Double.Text

/-
Integers of 64 bits, and how they are read from decimal text.
-/
namespace SqlFragment.Integer

def least : Int := -0x8000000000000000

def greatest : Int := 0x7fffffffffffffff

def ofInt? (n : Int) : Option Int64 :=
  if least ≤ n ∧ n ≤ greatest then some (Int64.ofInt n) else none

def saturate (n : Int) : Int64 := Int64.ofInt (max least (min n greatest))

/-- An optional sign and decimal digits, at least one, as the integer they denote. -/
def digits? (cs : List Char) : Option Int :=
  let (negative, ds) := Double.takeSign cs
  if !ds.isEmpty && ds.all Char.isDigit then
    some (if negative then -(Text.digitsValue ds : Int) else Text.digitsValue ds)
  else none

def parse? (cs : List Char) : Option Int64 := (digits? cs).bind ofInt?

end SqlFragment.Integer
