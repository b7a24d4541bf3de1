import SqlFragment.Time.Reading
import SqlFragment.Value.Basic

/-
Conversion of values between types. Null stays null, the undefined type keeps every value, and what
no rule converts is refused with the value that was asked for.
-/
namespace SqlFragment

inductive TypeError where
  | unknownType (name : String)
  | conversion (value : Value) (target : DataType)
deriving DecidableEq

def TypeError.message : TypeError → String
  | .unknownType name => s!"UnknownDataType: {name} is not a data type\n"
  | .conversion value target =>
    "InvalidConversion: Invalid conversion from " ++ value.display ++ " to " ++ target.name ++ "\n"

def DataType.parse (text : String) : Except TypeError DataType :=
  match DataType.parse? text with
  | some t => .ok t
  | none => .error (.unknownType text)

namespace Value

def truth? (text : String) : Option Bool :=
  match Text.lowercase (Text.trim text) with
  | "true" | "t" | "yes" | "on" | "1" => some true
  | "false" | "f" | "no" | "off" | "0" | "" => some false
  | _ => none

/-- Cuts off the fraction of a float between the bounds of 64-bit integers, the upper one taken as
the number after the greatest integer, which itself becomes that integer. -/
def integerOfFloat? (x : Double) : Option Int64 :=
  if x.isFinite ∧ Integer.least * x.denominator ≤ x.numerator ∧
      x.numerator ≤ (Integer.greatest + 1) * x.denominator then
    some (Integer.saturate x.truncate)
  else none

/-- A float as seconds since 1970: the floor gives the second and the fraction the nanoseconds. -/
def timestampOfFloat? (x : Double) : Option Timestamp :=
  if x.isFinite then
    Timestamp.ofUnix? x.floor (x.fraction.mul (.ofInt 1000000000)).truncate.toNat
  else none

def floatOfTimestamp (t : Timestamp) : Double :=
  (Double.ofInt t.seconds).add ((Double.ofInt t.nanos).div (.ofInt 1000000000))

def utf8Text? (bytes : List UInt8) : Option String := String.fromUTF8? ⟨bytes.toArray⟩

def cast (v : Value) (target : DataType) : Except TypeError Value :=
  let refused : Except TypeError Value := .error (.conversion v target)
  let orRefused (converted : Option Value) : Except TypeError Value :=
    match converted with
    | some w => .ok w
    | none => refused
  match target, v with
  | .undefined, _ => .ok v
  | _, null | .null, _ => .ok null
  | .boolean, boolean b => .ok (boolean b)
  | .boolean, integer n => .ok (boolean (n != 0))
  | .boolean, float x => .ok (boolean !x.isZero)
  | .boolean, text s => orRefused ((truth? s).map boolean)
  | .integer, boolean b => .ok (integer (if b then 1 else 0))
  | .integer, integer n => .ok (integer n)
  | .integer, float x => orRefused ((integerOfFloat? x).map integer)
  | .integer, text s =>
    match Integer.parse? (Text.trim s).toList, Double.parse? (Text.trim s) with
    | some n, _ => .ok (integer n)
    | none, none => refused
    | none, some x =>
      match integerOfFloat? x with
      | some n => .ok (integer n)
      | none => .error (.conversion (float x) .integer)
  | .integer, timestamp t => .ok (integer (Int64.ofInt t.seconds))
  | .float, boolean b => .ok (float (.ofInt (if b then 1 else 0)))
  | .float, integer n => .ok (float (.ofInt n.toInt))
  | .float, float x => .ok (float x)
  | .float, text s => orRefused ((Double.parse? (Text.trim s)).map float)
  | .float, timestamp t => .ok (float (floatOfTimestamp t))
  | .string, boolean b => .ok (text (if b then "true" else "false"))
  | .string, integer n => .ok (text (toString n.toInt))
  | .string, float x => .ok (text (x.format .plain))
  | .string, text s => .ok (text s)
  | .string, timestamp t => .ok (text (t.format Timestamp.literalLayout))
  | .string, binary bytes => orRefused ((utf8Text? bytes).map text)
  | .timestamp, timestamp t => .ok (timestamp t)
  | .timestamp, integer n => orRefused ((Timestamp.ofUnix? n.toInt 0).map timestamp)
  | .timestamp, float x => orRefused ((timestampOfFloat? x).map timestamp)
  | .timestamp, text s => orRefused ((Timestamp.parse? (Text.trim s)).map timestamp)
  | .binary, binary bytes => .ok (binary bytes)
  | .binary, text s => .ok (binary s.toUTF8.data.toList)
  | _, _ => refused

end Value
end SqlFragment
