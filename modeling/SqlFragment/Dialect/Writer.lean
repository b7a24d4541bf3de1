import SqlFragment.Dialect.Basic

/-
Writing literals and column definitions in a dialect. Quoting that needs a live connection is
supplied from outside.
-/
namespace SqlFragment

/-- Quoting by a connection; both functions give whole literals. -/
structure Escaper where
  string : String → String
  binary : List UInt8 → String

structure Writer where
  dialect : Dialect
  escaper : Option Escaper := none

namespace Writer

def escapeString (w : Writer) (text : String) : String :=
  match w.escaper with
  | some e => e.string text
  | none => w.dialect.quoteString text

def escapeBinary (w : Writer) (bytes : List UInt8) : String :=
  match w.escaper with
  | some e => e.binary bytes
  | none => w.dialect.quoteBinary bytes

def bound (b : Option Value) (t : DataType) : Except DialectError (Option Value) :=
  match b with
  | none => .ok none
  | some v => (v.cast t).mapError .type |>.map some

/-- Brings a number back within optional bounds; other values are kept. -/
def clamp (v : Value) (low high : Option Value) : Except DialectError Value := do
  match v with
  | .integer n =>
    let n ← do
      match ← bound low .integer with
      | some (.integer least) => pure (if n.toInt < least.toInt then least else n)
      | _ => pure n
    match ← bound high .integer with
    | some (.integer most) => return .integer (if most.toInt < n.toInt then most else n)
    | _ => return .integer n
  | .float x =>
    let x ← do
      match ← bound low .float with
      | some (.float least) => pure (x.max least)
      | _ => pure x
    match ← bound high .float with
    | some (.float most) => return .float (x.min most)
    | _ => return .float x
  | v => return v

/-- A value as it stands, without a conversion. -/
def write (w : Writer) : Value → Except DialectError String
  | .null => .ok w.dialect.nullLiteral
  | .boolean b => .ok (w.dialect.booleanLiteral b)
  | .integer n => .ok (toString n.toInt)
  | .float x => if x.isFinite then .ok (x.format .exact) else .error (.noLiteral x)
  | .text s => .ok (w.escapeString s)
  | .timestamp t => .ok (w.escapeString (w.dialect.timestampText t))
  | .binary bytes => .ok (w.escapeBinary bytes)

/-- A value as a literal of a type, with numbers brought back within bounds. -/
def clampedLiteral (w : Writer) (v : Value) (t : DataType) (low high : Option Value) :
    Except DialectError String := do
  let v ← (v.cast t).mapError .type
  let v ← clamp v low high
  w.write v

def literal (w : Writer) (v : Value) (t : DataType) : Except DialectError String :=
  w.clampedLiteral v t none none

def columnDefinition (w : Writer) (c : Column) : Except DialectError String := do
  let type ← w.dialect.columnType c.type
  let nullability := if c.nullable then "" else " NOT NULL"
  let default ←
    match c.default with
    | some v => do
      let text ← w.literal v c.type
      pure (" DEFAULT " ++ text)
    | none => pure ""
  let counting :=
    match c.autoIncrement, w.dialect.autoIncrementClause? with
    | true, some clause => " " ++ clause
    | _, _ => ""
  return w.dialect.escapeIdentifier c.name ++ " " ++ type ++ nullability ++ default ++ counting

def textArgument (capability : String) (arguments : List Value) : Except DialectError String :=
  match arguments with
  | .text s :: _ => .ok s
  | v :: _ => .error (.notText v)
  | [] => .error (.missingArguments capability 1)

/-- Calls a capability by name; there is none for a name that the writer does not know. -/
def invoke? (w : Writer) (name : String) (arguments : List Value) :
    Option (Except DialectError Value) :=
  let answer (text : Except DialectError String) : Option (Except DialectError Value) :=
    some (text.map .text)
  match name with
  | "escape_string" => answer ((textArgument name arguments).map w.escapeString)
  | "escape_identifier" => answer ((textArgument name arguments).map w.dialect.escapeIdentifier)
  | "escape_path" =>
    answer ((textArgument name arguments).map fun t => w.dialect.escapePath (Path.parse t))
  | "escape_binary" =>
    match arguments with
    | .binary bytes :: _ => answer (.ok (w.escapeBinary bytes))
    | _ => answer (.error .notBinary)
  | "literal" =>
    match arguments with
    | v :: _ => answer (w.literal v .undefined)
    | [] => answer (.error .noValue)
  | "null_literal" => answer (.ok w.dialect.nullLiteral)
  | "column_type_name" =>
    answer do
      let text ← textArgument name arguments
      let type ← (DataType.parse text).mapError .type
      w.dialect.columnType type
  | _ => none

end Writer
end SqlFragment
