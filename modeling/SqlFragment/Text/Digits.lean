/-
Digits in text: padded decimal numbers, pairs of hexadecimal digits, and the readers that take
digits off the front of a text.
-/
namespace SqlFragment.Text

/-- The decimal digits of `n`, filled with zeros on the left up to `width`. -/
def padded (width n : Nat) : String :=
  String.ofList ((Nat.toDigits 10 n).leftpad width '0')

def digitsValue (ds : List Char) : Nat := Nat.ofDigitChars 10 ds 0

theorem digitsValue_toDigits (n : Nat) : digitsValue (Nat.toDigits 10 n) = n :=
  Nat.ofDigitChars_toDigits (by decide) (by decide)

/-- Exactly `width` decimal digits, with the text after them. -/
def fixedDigits? (width : Nat) (cs : List Char) : Option (Nat × List Char) :=
  let ds := cs.take width
  if ds.length = width ∧ ds.all Char.isDigit then some (digitsValue ds, cs.drop width) else none

/-- Between one and `most` decimal digits, as many as there are, with the text after them. -/
def someDigits? (most : Nat) (cs : List Char) : Option (Nat × List Char) :=
  let ds := (cs.takeWhile Char.isDigit).take most
  if ds.isEmpty then none else some (digitsValue ds, cs.drop ds.length)

def after? (c : Char) : List Char → Option (List Char)
  | [] => none
  | d :: rest => if d = c then some rest else none

theorem after?_eq_none {c : Char} {cs : List Char} (other : cs.head? ≠ some c) :
    after? c cs = none := by
  cases cs with
  | nil => rfl
  | cons d rest => exact if_neg fun same => other (congrArg some same)

def hexDigit (n : Nat) : Char := if n < 10 then Char.ofNat (48 + n) else Char.ofNat (55 + n)

/-- Two upper case hexadecimal digits for each byte. -/
def hex (bytes : List UInt8) : String :=
  String.ofList (bytes.flatMap fun b => [hexDigit (b.toNat / 16), hexDigit (b.toNat % 16)])

def hexValue? (c : Char) : Option Nat :=
  if c.isDigit then some (c.toNat - 48)
  else if 'a' ≤ c ∧ c ≤ 'f' then some (c.toNat - 87)
  else if 'A' ≤ c ∧ c ≤ 'F' then some (c.toNat - 55)
  else none

/-- The bytes that pairs of hexadecimal digits denote; an odd digit or another character refuses. -/
def unhex? : List Char → Option (List UInt8)
  | [] => some []
  | [_] => none
  | high :: low :: rest => do
    let h ← hexValue? high
    let l ← hexValue? low
    let bytes ← unhex? rest
    return UInt8.ofNat (16 * h + l) :: bytes

end SqlFragment.Text
