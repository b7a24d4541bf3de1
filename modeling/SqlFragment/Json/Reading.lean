import SqlFragment.Double.Text
import SqlFragment.Json.Basic

/-
Documents from text. A number with a fraction or an exponent, and an integer that needs more than 64
bits, is a float: as many of its digits as fit 64 bits, scaled by a power of ten.
-/
namespace SqlFragment.Json

def isGap (c : Char) : Bool := c == ' ' || c == '\n' || c == '\r' || c == '\t'

def skipGap (cs : List Char) : List Char := cs.dropWhile isGap

def unit? (a b c d : Char) : Option Nat :=
  [a, b, c, d].foldlM (fun n digit => (Text.hexValue? digit).map fun k => 16 * n + k) 0

def escaped? : Char → Option Char
  | 'n' => some '\n'
  | 't' => some '\t'
  | 'r' => some '\r'
  | 'b' => some '\x08'
  | 'f' => some '\x0c'
  | c => if c == '"' || c == '\\' || c == '/' then some c else none

/-- One unit after another: a high half waits for the low half that completes the character. -/
def joinUnit? (high : Option Nat) (unit : Nat) : Option (Option Nat × List Char) :=
  match high with
  | some h =>
    if 0xDC00 ≤ unit ∧ unit < 0xE000 then
      some (none, [Char.ofNat (0x10000 + (h - 0xD800) * 0x400 + (unit - 0xDC00))])
    else none
  | none =>
    if 0xD800 ≤ unit ∧ unit < 0xDC00 then some (some unit, [])
    else if 0xDC00 ≤ unit ∧ unit < 0xE000 then none
    else some (none, [Char.ofNat unit])

def readString (high : Option Nat) (done : List Char) : List Char → Option (String × List Char)
  | [] => none
  | '\\' :: 'u' :: a :: b :: c :: d :: rest => do
    let unit ← unit? a b c d
    let (high, cs) ← joinUnit? high unit
    readString high (cs ++ done) rest
  | '\\' :: c :: rest => do
    let e ← escaped? c
    if high.isSome then none else readString none (e :: done) rest
  | c :: rest =>
    if high.isSome || c < ' ' then none
    else if c == '"' then some (String.ofList done.reverse, rest)
    else readString none (c :: done) rest

/-- Appends digits to a number as long as it fits 64 bits, and counts those that are left out. -/
def appendDigits (start : Nat) (ds : List Char) : Nat × Nat :=
  ds.foldl (fun (n, omitted) d =>
    let next := 10 * n + (d.toNat - '0'.toNat)
    if omitted = 0 ∧ next < 0x10000000000000000 then (next, 0) else (n, omitted + 1)) (start, 0)

/-- Multiplies by a power of ten. Each power up to the 308th is a single rounding. -/
def scale (x : Double) (exponent : Int) : Double :=
  if exponent < -308 then
    if x.isZero then x else scale (x.div (.ofDecimal false 1 308)) (exponent + 308)
  else if exponent < 0 then x.div (.ofDecimal false 1 exponent.natAbs)
  else if exponent ≤ 308 then x.mul (.ofDecimal false 1 exponent)
  else if x.isZero then x
  else .infinity x.isNegative
termination_by (-exponent).toNat

/-- A number beyond the range of floats is refused. Minus zero is a float. -/
def readNumber? (cs : List Char) : Option (Json × List Char) :=
  let (negative, body) := Double.takeSign cs
  let whole := body.takeWhile Char.isDigit
  let (part, rest) := Double.takeFraction (body.dropWhile Char.isDigit)
  let (power, rest) := Double.takeExponent rest
  let (number, omitted) := appendDigits 0 whole
  if whole.isEmpty ∨ (whole.head? = some '0' ∧ 1 < whole.length) then none
  else if part.isNone ∧ power.isNone ∧ omitted = 0 ∧ ¬ (negative ∧ number = 0) then
    some (.integer (if negative then -(number : Int) else number), rest)
  else
    let ds := part.getD []
    let (digits, left) := appendDigits number ds
    let exponent : Int := omitted + power.getD 0 - (ds.length - left : Nat)
    let x := scale (Double.ofRatio negative digits 1) exponent
    if x.isFinite then some (.float x, rest) else none

mutual

/-- A value with the text after it, in at most `fuel` nested steps. -/
def readValue (fuel : Nat) (cs : List Char) : Option (Json × List Char) :=
  match fuel, skipGap cs with
  | _ + 1, '"' :: rest => do
    let (s, rest) ← readString none [] rest
    return (.text s, rest)
  | fuel + 1, '[' :: rest =>
    match skipGap rest with
    | ']' :: rest => some (.array [], rest)
    | _ => readItems fuel [] rest
  | fuel + 1, '\x7b' :: rest =>
    match skipGap rest with
    | '\x7d' :: rest => some (.object [], rest)
    | _ => readEntries fuel [] rest
  | _ + 1, 't' :: 'r' :: 'u' :: 'e' :: rest => some (.boolean true, rest)
  | _ + 1, 'f' :: 'a' :: 'l' :: 's' :: 'e' :: rest => some (.boolean false, rest)
  | _ + 1, 'n' :: 'u' :: 'l' :: 'l' :: rest => some (.null, rest)
  | _ + 1, c :: rest => if c == '+' then none else readNumber? (c :: rest)
  | _, _ => none

def readItems (fuel : Nat) (done : List Json) (cs : List Char) : Option (Json × List Char) :=
  match fuel with
  | 0 => none
  | fuel + 1 => do
    let (item, rest) ← readValue fuel cs
    match skipGap rest with
    | ',' :: rest => readItems fuel (item :: done) rest
    | ']' :: rest => return (.array (item :: done).reverse, rest)
    | _ => none

/-- The entries of an object up to its closing brace. A key that is repeated keeps its place and
takes the later item. -/
def readEntries (fuel : Nat) (done : List (String × Json)) (cs : List Char) :
    Option (Json × List Char) :=
  match fuel, skipGap cs with
  | fuel + 1, '"' :: rest => do
    let (key, rest) ← readString none [] rest
    match skipGap rest with
    | ':' :: rest =>
      let (item, rest) ← readValue fuel rest
      let done := setEntry key item done
      match skipGap rest with
      | ',' :: rest => readEntries fuel done rest
      | '\x7d' :: rest => return (.object done, rest)
      | _ => none
    | _ => none
  | _, _ => none

end

def parse? (text : String) : Option Json := do
  let cs := text.toList
  let (value, rest) ← readValue (cs.length + 1) cs
  if (skipGap rest).isEmpty then some value else none

end SqlFragment.Json
