import SqlFragment.Text.Blank
import SqlFragment.Text.Lowercase

/-
The types of values, columns and expressions.
-/
namespace SqlFragment

inductive DataType where
  | undefined
  | null
  | boolean
  | integer
  | float
  | string
  | timestamp
  | binary
deriving DecidableEq, Repr, Inhabited

namespace DataType

def name : DataType → String
  | undefined => "undefined"
  | null => "null"
  | boolean => "boolean"
  | integer => "integer"
  | float => "float"
  | string => "string"
  | timestamp => "timestamp"
  | binary => "binary"

def isDefined (t : DataType) : Bool := t != undefined

def isNumeric (t : DataType) : Bool := t == integer || t == float

/-- The first type that is defined. -/
def orElse (t other : DataType) : DataType := if t.isDefined then t else other

/-- Reads the name of a type or one of its usual synonyms, in any case. -/
def parse? (text : String) : Option DataType :=
  match Text.lowercase (Text.trim text) with
  | "" | "undefined" => some undefined
  | "null" => some null
  | "bool" | "boolean" => some boolean
  | "int" | "integer" | "bigint" => some integer
  | "float" | "double" | "real" | "decimal" => some float
  | "string" | "text" | "varchar" => some string
  | "timestamp" | "datetime" | "date" | "time" => some timestamp
  | "binary" | "blob" | "bytes" => some binary
  | _ => none

end DataType
end SqlFragment
