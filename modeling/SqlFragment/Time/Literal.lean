import SqlFragment.Time.Timestamp

/-
The inside of a timestamp literal: a date, a time and an offset, each of which may be missing as
long as there is a date or a time. A missing date or time is taken from the clock, a missing offset
is that of UTC.
-/
namespace SqlFragment.Timestamp.Literal

def date? (cs : List Char) : Option (Date × List Char) := do
  let (year, cs) ← Text.fixedDigits? 4 cs
  let (month, cs) ← Text.fixedDigits? 2 (← Text.after? '-' cs)
  let (day, cs) ← Text.fixedDigits? 2 (← Text.after? '-' cs)
  return (← Date.ofYmd? year month day, cs)

/-- Seconds after the minutes, with at most nine digits of a fraction. -/
def seconds? (cs : List Char) : Option (Nat × Nat × List Char) := do
  match Text.after? ':' cs with
  | none => return (0, 0, cs)
  | some cs =>
    let (second, cs) ← Text.fixedDigits? 2 cs
    match Text.after? '.' cs with
    | none => return (second, 0, cs)
    | some cs =>
      let ds := cs.takeWhile Char.isDigit
      if ds.isEmpty ∨ 9 < ds.length then none
      else return (second, Text.digitsValue (ds.rightpad 9 '0'), cs.drop ds.length)

/-- Hours and minutes with optional seconds; the result is in seconds since midnight. -/
def time? (cs : List Char) : Option ((Nat × Nat) × List Char) := do
  let (hour, cs) ← Text.fixedDigits? 2 cs
  let (minute, cs) ← Text.fixedDigits? 2 (← Text.after? ':' cs)
  let (second, nanos, cs) ← seconds? cs
  if hour < 24 ∧ minute < 60 ∧ second < 60 then
    return ((hour * 3600 + minute * 60 + second, nanos), cs)
  else none

/-- The minutes of an offset, with or without a colon; when they are missing nothing is read. -/
def offsetMinutes (cs : List Char) : Nat × List Char :=
  (Text.fixedDigits? 2 ((Text.after? ':' cs).getD cs)).getD (0, cs)

def signedOffset? (sign : Int) (cs : List Char) : Option (Int × List Char) := do
  let (hours, cs) ← Text.fixedDigits? 2 cs
  let (minutes, cs) := offsetMinutes cs
  let offset : Int := sign * (hours * 3600 + minutes * 60 : Nat)
  if OffsetFits offset then return (offset, cs) else none

def offset? : List Char → Option (Int × List Char)
  | 'Z' :: rest | 'z' :: rest => some (0, rest)
  | '+' :: rest => signedOffset? 1 rest
  | '-' :: rest => signedOffset? (-1) rest
  | _ => none

def skipDivider : List Char → List Char
  | 'T' :: rest | 't' :: rest | ' ' :: rest => rest
  | cs => cs

/-- A part that may be missing: when it cannot be read, nothing is. -/
def optional {α : Type} (part? : List Char → Option (α × List Char)) (cs : List Char) :
    Option α × List Char :=
  match part? cs with
  | some (a, rest) => (some a, rest)
  | none => (none, cs)

def read? (now : LocalTime) (text : List Char) : Option Timestamp :=
  let (date, cs) := optional date? text
  let cs := if date.isSome then skipDivider cs else cs
  let (time, cs) := optional time? cs
  if date.isNone && time.isNone then none
  else
    let (offset, cs) := optional offset? cs
    if cs.isEmpty then
      let (second, nanos) := time.getD (now.second, now.nanos)
      ofLocal? ⟨date.getD now.date, second, nanos⟩ (offset.getD 0)
    else none

end SqlFragment.Timestamp.Literal
