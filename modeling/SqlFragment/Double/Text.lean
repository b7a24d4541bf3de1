import SqlFragment.Double.Shortest
import SqlFragment.Text.Digits

/-
Numbers as text. Three layouts share the shortest digits: the exact one, the plain one that never
uses an exponent, and the one of expressions, in which every number has a point.
-/
namespace SqlFragment.Double

structure Layout where
  /-- Positions of the decimal point, relative to the first digit, that are written without an
  exponent; `none` when there never is one. -/
  positional : Option (Int × Int)
  wholePoint : Bool
  exponentPoint : Bool

namespace Layout

/-- Positional between `0.0001` and `10 ^ 16`, whole numbers with `.0`. -/
def exact : Layout := ⟨some (-3, 16), true, false⟩

def plain : Layout := ⟨none, false, false⟩

/-- The exact layout with a point in every number, so that none reads back as an integer. -/
def pointed : Layout := ⟨some (-3, 16), true, true⟩

def isPositional (layout : Layout) (point : Int) : Bool :=
  match layout.positional with
  | none => true
  | some (first, last) => first ≤ point && point ≤ last

def writePositional (layout : Layout) (digits : List Char) (point : Int) : List Char :=
  if point ≤ 0 then '0' :: '.' :: (List.replicate (-point).toNat '0' ++ digits)
  else if digits.length ≤ point.toNat then
    digits ++ List.replicate (point.toNat - digits.length) '0' ++
      (if layout.wholePoint then ['.', '0'] else [])
  else digits.take point.toNat ++ '.' :: digits.drop point.toNat

def writeExponent (layout : Layout) (digits : List Char) (point : Int) : List Char :=
  let tail := digits.drop 1
  digits.take 1 ++
    (if tail.isEmpty then (if layout.exponentPoint then ['.', '0'] else []) else '.' :: tail) ++
    'e' :: (toString (point - 1)).toList

def write (layout : Layout) (digits : List Char) (point : Int) : List Char :=
  if layout.isPositional point then layout.writePositional digits point
  else layout.writeExponent digits point

end Layout

def format (layout : Layout) : Double → String
  | .nan => "NaN"
  | .infinity negative => if negative then "-inf" else "inf"
  | .finite negative mantissa exponent _ =>
    let body :=
      if mantissa = 0 then layout.writePositional ['0'] 1
      else
        let decimal := shortest mantissa exponent
        let digits := Nat.toDigits 10 decimal.digits
        layout.write digits (digits.length + decimal.exponent)
    String.ofList (if negative then '-' :: body else body)

/-- The number nearest to `± digits * 10 ^ exponent`. Exponents far beyond the range of numbers are
decided by the count of digits alone. -/
def ofDecimal (negative : Bool) (digits : Nat) (exponent : Int) : Double :=
  let point : Int := (Nat.toDigits 10 digits).length + exponent
  if digits = 0 ∨ point < -330 then zero negative
  else if 310 < point then .infinity negative
  else
    let r := Ratio.ofPower digits 10 exponent
    ofRatio negative r.num r.den

def takeSign : List Char → Bool × List Char
  | '-' :: rest => (true, rest)
  | '+' :: rest => (false, rest)
  | cs => (false, cs)

def takeFraction (cs : List Char) : Option (List Char) × List Char :=
  match cs with
  | '.' :: rest =>
    let ds := rest.takeWhile Char.isDigit
    if ds.isEmpty then (none, cs) else (some ds, rest.dropWhile Char.isDigit)
  | _ => (none, cs)

def takeExponent (cs : List Char) : Option Int × List Char :=
  match cs with
  | c :: rest =>
    if c = 'e' ∨ c = 'E' then
      let (negative, body) := takeSign rest
      let ds := body.takeWhile Char.isDigit
      let n : Int := Text.digitsValue ds
      if ds.isEmpty then (none, cs)
      else (some (if negative then -n else n), body.dropWhile Char.isDigit)
    else (none, cs)
  | [] => (none, cs)

/-- Reads an exponent that ends the text; no text is the exponent zero. -/
def readExponent? : List Char → Option Int
  | [] => some 0
  | c :: rest =>
    if c = 'e' ∨ c = 'E' then
      let (negative, ds) := takeSign rest
      if !ds.isEmpty && ds.all Char.isDigit then
        let n : Int := Text.digitsValue ds
        some (if negative then -n else n)
      else none
    else none

/-- Reads a whole text as a number: digits with an optional point and exponent, or the name of an
infinity or of NaN in any case. -/
def parse? (text : String) : Option Double :=
  let (negative, body) := takeSign text.toList
  let name := String.ofList (body.map Char.toLower)
  if name = "inf" ∨ name = "infinity" then some (.infinity negative)
  else if name = "nan" then some .nan
  else
    let whole := body.takeWhile Char.isDigit
    let rest := body.dropWhile Char.isDigit
    let (part, rest) :=
      match Text.after? '.' rest with
      | some tail => (tail.takeWhile Char.isDigit, tail.dropWhile Char.isDigit)
      | none => ([], rest)
    if whole.isEmpty && part.isEmpty then none
    else (readExponent? rest).map fun e =>
      ofDecimal negative (Text.digitsValue (whole ++ part)) (e - part.length)

end SqlFragment.Double
