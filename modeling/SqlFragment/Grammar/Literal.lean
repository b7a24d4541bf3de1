import SqlFragment.Grammar.Token
import SqlFragment.Text.Quoted
import SqlFragment.Time.Literal

/-
Literals of the grammar: numbers, texts, bytes, timestamps and the three named constants.
-/
namespace SqlFragment.Grammar

/-- The value of the text of a number. A point makes a float. Without one, an exponent makes an
integer when the number is whole and small enough, and plain digits when they fit 64 bits. -/
def numeralValue? (pointed scaled : Bool) (cs : List Char) : Option Value :=
  let float := Double.parse? (String.ofList cs)
  if pointed then float.map .float
  else if scaled then
    float.map fun x =>
      if x.isInteger ∧ x.magnitude < 0x8000000000000000 * x.denominator then
        .integer (Int64.ofInt x.truncate)
      else .float x
  else
    match Integer.parse? cs with
    | some n => some (.integer n)
    | none => float.map .float

def isTimestampPart (c : Char) : Bool :=
  c.isDigit || c == '-' || c == ':' || c == '.' || c == 'T' || c == 't' || c == ' ' || c == 'Z' ||
    c == 'z' || c == '+'

namespace Reader

def sign : Reader Bool := nextIsEither '-' '+'

def digits : Reader (List Char) := takeWhile Char.isDigit

/-- Digits behind a point; a point without a digit is left alone. -/
def fraction : Reader Bool := do
  if (← rest).head? = some '.' then
    let behind := (← place) + 1
    if (← sliceFrom behind).head?.any Char.isDigit then
      goTo behind
      let _ ← digits
      return true
    else return false
  else return false

/-- An exponent; a letter without digits after it is left alone. -/
def exponent : Reader Bool := do
  let before ← place
  if ← nextIsEither 'e' 'E' then
    let _ ← sign
    if (← digits).isEmpty then
      goTo before
      return false
    else return true
  else return false

/-- A number with an optional sign; it must not run into a name. -/
def number : Reader Expr := do
  let start ← place
  let _ ← sign
  if (← digits).isEmpty then failure
  else
    let pointed ← fraction
    let scaled ← exponent
    if (← peek).any isNamePart then failure
    else
      let cs ← slice start (← place)
      match numeralValue? pointed scaled cs with
      | some v => return .value v
      | none => halt (.failed (.unexpected (String.ofList cs) start))

/-- The text up to the next quote: a second one stands for itself, a single one ends the text. -/
def textStep (start : Nat) (inside : String) : Reader (String ⊕ String) := do
  let chunk ← takeWhile (· ≠ '\'')
  if ← nextIs '\'' then
    if ← nextIs '\'' then return .inl (inside ++ String.ofList chunk ++ "'")
    else return .inr (inside ++ String.ofList chunk)
  else errorAt start

/-- A text between single quotes; without the closing one it is a fault. -/
def text : Reader Expr := do
  let start ← place
  char '\''
  let inside ← loop (textStep start) ""
  return .value (.text inside)

/-- Bytes as pairs of hexadecimal digits; once opened, all else is a fault. -/
def bytes : Reader Expr := do
  let start ← place
  if ← nextIsEither 'X' 'x' then
    char '\''
    let ds ← takeWhile fun c => (Text.hexValue? c).isSome
    if ← nextIs '\'' then
      match Text.unhex? ds with
      | some bs => return .value (.binary bs)
      | none => errorAt start
    else errorAt start
  else failure

/-- A timestamp between hash signs; what stands between them must then make sense. -/
def timestamp (now : LocalTime) : Reader Expr := do
  let start ← place
  char '#'
  let content ← takeWhile isTimestampPart
  let trimmed := (Text.skipBlank (Text.skipBlank content).reverse).reverse
  if trimmed.isEmpty then failure
  else
    char '#'
    match Timestamp.Literal.read? now trimmed with
    | some t => return .value (.timestamp t)
    | none => errorAt start

def constant : Reader Expr :=
  (keyword "true" *> pure (.value (.boolean true))) <|>
    (keyword "false" *> pure (.value (.boolean false))) <|>
    (keyword "null" *> pure (.value .null))

end Reader
end SqlFragment.Grammar
