import SqlFragment.Text.Blank
import SqlFragment.Time.Timestamp

/-
Reading timestamps from text: the strict interchange form, and two looser forms that accept blanks
before each number and shorter numbers.
-/
namespace SqlFragment.Timestamp

/-- A time of day from its parts; the second 60 is a leap second. -/
def timeOfParts? (hour minute second nanos : Nat) : Option (Nat × Nat) :=
  if hour < 24 ∧ minute < 60 ∧ second < 60 then
    some (hour * 3600 + minute * 60 + second, nanos)
  else if hour < 24 ∧ minute < 60 ∧ second = 60 then
    some (hour * 3600 + minute * 60 + 59, nanos + 1000000000)
  else none

/-- Nanoseconds from the digits of a fraction; those after the ninth are dropped. -/
def nanosOfDigits (ds : List Char) : Nat := Text.digitsValue ((ds.take 9).rightpad 9 '0')

def fraction? (cs : List Char) : Option (Nat × List Char) :=
  match Text.after? '.' cs with
  | none => some (0, cs)
  | some rest =>
    let ds := rest.takeWhile Char.isDigit
    if ds.isEmpty then none else some (nanosOfDigits ds, rest.drop ds.length)

def offsetSign? : List Char → Option (Int × List Char)
  | '+' :: rest => some (1, rest)
  | '-' :: rest => some (-1, rest)
  | '−' :: rest => some (-1, rest)
  | _ => none

/-- A signed offset of two digits for the hours and two for the minutes; `gap` reads what stands
between them. -/
def offset? (gap : List Char → Option (List Char)) (cs : List Char) : Option (Int × List Char) := do
  let (sign, cs) ← offsetSign? cs
  let (hours, cs) ← Text.fixedDigits? 2 cs
  let cs ← gap cs
  let (minutes, cs) ← Text.fixedDigits? 2 cs
  let offset : Int := sign * (hours * 3600 + minutes * 60 : Nat)
  if minutes < 60 ∧ OffsetFits offset then some (offset, cs) else none

def zuluOrOffset? : List Char → Option (Int × List Char)
  | 'Z' :: rest | 'z' :: rest => some (0, rest)
  | cs => offset? (Text.after? ':') cs

def readInterchange? (text : List Char) : Option Timestamp := do
  let (year, cs) ← Text.fixedDigits? 4 text
  let (month, cs) ← Text.fixedDigits? 2 (← Text.after? '-' cs)
  let (day, cs) ← Text.fixedDigits? 2 (← Text.after? '-' cs)
  let date ← Date.ofYmd? year month day
  let cs ← (Text.after? 'T' cs <|> Text.after? 't' cs <|> Text.after? ' ' cs)
  let (hour, cs) ← Text.fixedDigits? 2 cs
  let (minute, cs) ← Text.fixedDigits? 2 (← Text.after? ':' cs)
  let (second, cs) ← Text.fixedDigits? 2 (← Text.after? ':' cs)
  let (nanos, cs) ← fraction? cs
  let (offset, cs) ← zuluOrOffset? cs
  let (second, nanos) ← timeOfParts? hour minute second nanos
  if cs.isEmpty then ofLocal? ⟨date, second, nanos⟩ offset else none

/-- A year: four digits at most, or a sign and any number of digits. -/
def looseYear? (cs : List Char) : Option (Int × List Char) :=
  match Text.skipBlank cs with
  | '-' :: rest => (Text.someDigits? rest.length rest).map fun (n, cs) => (-(n : Int), cs)
  | '+' :: rest => (Text.someDigits? rest.length rest).map fun (n, cs) => ((n : Int), cs)
  | cs => (Text.someDigits? 4 cs).map fun (n, cs) => ((n : Int), cs)

def looseNumber? (cs : List Char) : Option (Nat × List Char) :=
  Text.someDigits? 2 (Text.skipBlank cs)

def looseLocal? (divider : List Char → Option (List Char)) (text : List Char) :
    Option (LocalTime × List Char) := do
  let (year, cs) ← looseYear? text
  let (month, cs) ← looseNumber? (← Text.after? '-' cs)
  let (day, cs) ← looseNumber? (← Text.after? '-' cs)
  let (hour, cs) ← looseNumber? (← divider cs)
  let (minute, cs) ← looseNumber? (← Text.after? ':' cs)
  let (second, cs) ← looseNumber? (← Text.after? ':' cs)
  let (nanos, cs) ← fraction? cs
  let date ← Date.ofYmd? year month day
  let (second, nanos) ← timeOfParts? hour minute second nanos
  return (⟨date, second, nanos⟩, cs)

def readLooseZoned? (text : List Char) : Option Timestamp := do
  let (t, cs) ← looseLocal? (some ∘ Text.skipBlank) text
  let gap := fun cs : List Char => some (cs.dropWhile fun c => c == ':' || Text.isBlank c)
  let (offset, cs) ← offset? gap (Text.skipBlank cs)
  if cs.isEmpty then ofLocal? t offset else none

def readLooseNaive? (divider : List Char → Option (List Char)) (text : List Char) :
    Option Timestamp := do
  let (t, cs) ← looseLocal? divider text
  if cs.isEmpty then ofLocal? t 0 else none

def parse? (text : String) : Option Timestamp :=
  let cs := text.toList
  readInterchange? cs <|> readLooseZoned? cs <|>
    readLooseNaive? (some ∘ Text.skipBlank) cs <|> readLooseNaive? (Text.after? 'T') cs

end SqlFragment.Timestamp
