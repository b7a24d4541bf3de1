import SqlFragment.Naming
import SqlFragment.Schema.Basic
import SqlFragment.Text.Alphabetic
import SqlFragment.Value.Cast

/-
The dialects of SQL: quoting, names of parameters, placeholders and column types.
-/
namespace SqlFragment

inductive Dialect where
  | generic
  | mysql
  | postgresql
  | sqlite
  | mssql
deriving DecidableEq, Repr

inductive DialectError where
  | parameterName (name : String)
  | type (e : TypeError)
  | noLiteral (x : Double)
  | noColumnType (t : DataType)
  | notText (v : Value)
  | missingArguments (capability : String) (count : Nat)
  | notBinary
  | noValue
deriving DecidableEq

namespace DialectError

def reason : DialectError → String
  | parameterName name => name ++ " cannot be used as a parameter name"
  | type e => e.message
  | noLiteral x => x.format .plain ++ " has no literal form"
  | noColumnType t => "No column type for " ++ t.name
  | notText v => v.display ++ " is not a text argument"
  | missingArguments capability count => s!"{capability} expects {count} arguments"
  | notBinary => "escape_binary expects a binary argument"
  | noValue => "literal expects 1 argument"

def message (e : DialectError) : String :=
  let label :=
    match e with
    | parameterName _ => "ParameterError: "
    | type _ | noLiteral _ => "LiteralError: "
    | _ => ""
  label ++ e.reason ++ "\n"

end DialectError

/-- Where a placeholder stands: its index among all placeholders, from zero, and the index of its
parameter among the distinct ones, from one. -/
structure PlaceholderPosition where
  occurrence : Nat
  ordinal : Nat

namespace Dialect

def name : Dialect → String
  | generic => "generic"
  | mysql => "mysql"
  | postgresql => "postgresql"
  | sqlite => "sqlite"
  | mssql => "mssql"

def quotes : Dialect → Char × Char
  | mysql => ('\x60', '\x60')
  | mssql => ('[', ']')
  | _ => ('"', '"')

def escapeIdentifier (d : Dialect) (identifier : String) : String :=
  Text.quoted d.quotes.1 d.quotes.2 identifier

def escapePath (d : Dialect) (path : Path) : String :=
  ".".intercalate (path.map d.escapeIdentifier)

/-- A string between quotes. Backslashes escape in the strings of `mysql`, and those of `mssql` are
marked as Unicode. -/
def quoteString (d : Dialect) (text : String) : String :=
  match d with
  | mysql => Text.quoted '\'' '\'' (String.ofList (Text.doubled '\\' text.toList))
  | mssql => "N" ++ Text.quoted '\'' '\'' text
  | _ => Text.quoted '\'' '\'' text

def quoteBinary (d : Dialect) (bytes : List UInt8) : String :=
  match d with
  | postgresql => "'\\x" ++ Text.hex bytes ++ "'"
  | mssql => "0x" ++ Text.hex bytes
  | _ => "X'" ++ Text.hex bytes ++ "'"

def booleanLiteral (d : Dialect) (b : Bool) : String :=
  match d with
  | sqlite | mssql => if b then "1" else "0"
  | _ => if b then "TRUE" else "FALSE"

def nullLiteral (_ : Dialect) : String := "NULL"

def timestampLayout : Dialect → TimestampLayout
  | mysql => ⟨" ", none⟩
  | mssql => ⟨" ", some " "⟩
  | _ => ⟨" ", some ""⟩

/-- A timestamp without quotes; where no offset is written it is shown in UTC. -/
def timestampText (d : Dialect) (t : Timestamp) : String :=
  match d with
  | mysql => { t with offset := 0 }.format d.timestampLayout
  | _ => t.format d.timestampLayout

/-- Characters that introduce placeholders in some dialect, and are never part of a name. -/
def isSigil (c : Char) : Bool := c == '$' || c == '@' || c == '#' || c == ':' || c == '?'

def isIdentifierStart (d : Dialect) (c : Char) : Bool :=
  match d with
  | generic | mssql => Text.isAlphabetic c || c == '_' || c == '#' || c == '@'
  | mysql =>
    Text.isAlphabetic c || c == '_' || c == '$' || c == '@' || (128 ≤ c.toNat && c.toNat ≤ 65535)
  | postgresql => Text.isAlphabetic c || c == '_'
  | sqlite => c.isAlpha || c == '_' || c == '$' || (127 ≤ c.toNat && c.toNat ≤ 65535)

def isIdentifierPart (d : Dialect) (c : Char) : Bool :=
  match d with
  | generic | mssql =>
    Text.isAlphabetic c || c.isDigit || c == '@' || c == '$' || c == '#' || c == '_'
  | postgresql => Text.isAlphabetic c || c.isDigit || c == '$' || c == '_'
  | mysql | sqlite => d.isIdentifierStart c || c.isDigit

def isParameterStart (d : Dialect) (c : Char) : Bool := !isSigil c && d.isIdentifierStart c

def isParameterPart (d : Dialect) (c : Char) : Bool := !isSigil c && d.isIdentifierPart c

/-- Whether a name can stand in a placeholder as it is. -/
def isParameterName (d : Dialect) (name : String) : Bool :=
  match name.toList with
  | c :: cs => d.isParameterStart c && cs.all d.isParameterPart
  | [] => false

/-- A name that can stand in a placeholder and is not taken. -/
def normalizeName (d : Dialect) (name : String) (taken : List String) :
    Except DialectError String :=
  let normalized := Naming.fresh (Naming.sanitize name d.isParameterStart d.isParameterPart) taken
  if d.isParameterName normalized then .ok normalized else .error (.parameterName name)

def isPositional (d : Dialect) : Bool := d = mysql

def placeholder (d : Dialect) (name : String) (position : PlaceholderPosition) : String :=
  match d with
  | generic | sqlite => ":" ++ name
  | mysql => "?"
  | postgresql => "$" ++ toString position.ordinal
  | mssql => "@" ++ name

def columnType (d : Dialect) (t : DataType) : Except DialectError String :=
  match d, t with
  | _, .undefined | _, .null => .error (.noColumnType t)
  | sqlite, .boolean | sqlite, .integer => .ok "INTEGER"
  | sqlite, .float => .ok "REAL"
  | sqlite, .string | sqlite, .timestamp => .ok "TEXT"
  | mssql, .boolean => .ok "BIT"
  | mssql, .float => .ok "FLOAT"
  | mssql, .string => .ok "NVARCHAR(MAX)"
  | mssql, .timestamp => .ok "DATETIMEOFFSET"
  | mssql, .binary => .ok "VARBINARY(MAX)"
  | mysql, .float => .ok "DOUBLE"
  | mysql, .timestamp => .ok "DATETIME"
  | mysql, .string | postgresql, .string => .ok "TEXT"
  | postgresql, .binary => .ok "BYTEA"
  | _, .boolean => .ok "BOOLEAN"
  | _, .integer => .ok "BIGINT"
  | _, .float => .ok "DOUBLE PRECISION"
  | _, .string => .ok "VARCHAR"
  | _, .timestamp => .ok "TIMESTAMP WITH TIME ZONE"
  | _, .binary => .ok "BLOB"

def autoIncrementClause? : Dialect → Option String
  | generic | postgresql => some "GENERATED BY DEFAULT AS IDENTITY"
  | mysql => some "AUTO_INCREMENT"
  | mssql => some "IDENTITY(1,1)"
  | sqlite => none

end Dialect
end SqlFragment
