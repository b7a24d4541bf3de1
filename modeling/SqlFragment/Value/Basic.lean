import SqlFragment.DataType
import SqlFragment.Integer
import SqlFragment.Text.Quoted
import SqlFragment.Time.Timestamp

/-
Typed scalar values, and the way they are written in expressions.
-/
namespace SqlFragment

inductive Value where
  | null
  | boolean (b : Bool)
  | integer (n : Int64)
  | float (x : Double)
  | text (s : String)
  | timestamp (t : Timestamp)
  | binary (bytes : List UInt8)
deriving DecidableEq

namespace Value

def dataType : Value → DataType
  | null => .null
  | boolean _ => .boolean
  | integer _ => .integer
  | float _ => .float
  | text _ => .string
  | timestamp _ => .timestamp
  | binary _ => .binary

def isNull (v : Value) : Bool := v = null

/-- A value in the form that expressions are read from. -/
def display : Value → String
  | null => "null"
  | boolean b => if b then "true" else "false"
  | integer n => toString n.toInt
  | float x => x.format .pointed
  | text s => Text.quoted '\'' '\'' s
  | timestamp t => "#" ++ t.format Timestamp.literalLayout ++ "#"
  | binary bytes => "X'" ++ Text.hex bytes ++ "'"

/-- Equality of values: floats compare as numbers and timestamps as instants. -/
def same : Value → Value → Bool
  | float x, float y => x.same y
  | timestamp s, timestamp t => s.sameInstant t
  | v, w => v == w

end Value
end SqlFragment
