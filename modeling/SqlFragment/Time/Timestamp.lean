import SqlFragment.Text.Digits
import SqlFragment.Time.Calendar

/-
Timestamps: an instant with the offset it is shown in. A leap second is held as the second before
it with a thousand million nanoseconds more.
-/
namespace SqlFragment

structure LocalTime where
  date : Date
  /-- Seconds since midnight. -/
  second : Nat
  nanos : Nat
deriving DecidableEq, Repr

structure Timestamp where
  /-- Seconds since the start of 1970 in UTC. -/
  seconds : Int
  nanos : Nat
  /-- Seconds east of UTC. -/
  offset : Int
deriving DecidableEq, Repr

namespace Timestamp

def InRange (seconds : Int) : Prop := -8334601228800 ≤ seconds ∧ seconds ≤ 8210266876799

instance (seconds : Int) : Decidable (InRange seconds) := inferInstanceAs (Decidable (_ ∧ _))

/-- Nanoseconds that may stand beside a second: a leap second only ends a minute. -/
def NanosFit (seconds : Int) (nanos : Nat) : Prop :=
  nanos < 1000000000 ∨ (nanos < 2000000000 ∧ seconds % 60 = 59)

instance (seconds : Int) (nanos : Nat) : Decidable (NanosFit seconds nanos) :=
  inferInstanceAs (Decidable (_ ∨ _))

def OffsetFits (offset : Int) : Prop := -86400 < offset ∧ offset < 86400

instance (offset : Int) : Decidable (OffsetFits offset) := inferInstanceAs (Decidable (_ ∧ _))

def ofUnix? (seconds : Int) (nanos : Nat) : Option Timestamp :=
  if InRange seconds ∧ NanosFit seconds nanos then some ⟨seconds, nanos, 0⟩ else none

/-- The instant at which a clock at `offset` reads `t`. -/
def ofLocal? (t : LocalTime) (offset : Int) : Option Timestamp :=
  let seconds := t.date.toDayNumber * 86400 + t.second - offset
  if InRange seconds then some ⟨seconds, t.nanos, offset⟩ else none

def toLocal (t : Timestamp) : LocalTime :=
  let shifted := t.seconds + t.offset
  ⟨Date.ofDayNumber (shifted / 86400), (shifted % 86400).toNat, t.nanos⟩

def sameInstant (a b : Timestamp) : Bool := a.seconds == b.seconds && a.nanos == b.nanos

end Timestamp

def yearText (year : Int) : String :=
  if 0 ≤ year ∧ year ≤ 9999 then Text.padded 4 year.toNat
  else (if year < 0 then "-" else "+") ++ Text.padded 4 year.natAbs

def Date.text (d : Date) : String :=
  yearText d.year ++ "-" ++ Text.padded 2 d.month ++ "-" ++ Text.padded 2 d.day

def fractionText (nanos : Nat) : String :=
  let n := nanos % 1000000000
  if n = 0 then ""
  else if n % 1000000 = 0 then "." ++ Text.padded 3 (n / 1000000)
  else if n % 1000 = 0 then "." ++ Text.padded 6 (n / 1000)
  else "." ++ Text.padded 9 n

/-- The time of day; a leap second shows as the sixtieth second. -/
def LocalTime.clockText (t : LocalTime) : String :=
  Text.padded 2 (t.second / 3600) ++ ":" ++ Text.padded 2 (t.second / 60 % 60) ++ ":" ++
    Text.padded 2 (t.second % 60 + t.nanos / 1000000000) ++ fractionText t.nanos

def offsetText (offset : Int) : String :=
  let minutes := (offset.natAbs + 30) / 60
  (if offset < 0 then "-" else "+") ++ Text.padded 2 (minutes / 60) ++ ":" ++
    Text.padded 2 (minutes % 60)

/-- How a timestamp is laid out: what divides date and time, and what stands before the offset, or
no offset at all. -/
structure TimestampLayout where
  divider : String
  beforeOffset : Option String

namespace TimestampLayout

def pattern (layout : TimestampLayout) : String :=
  "%Y-%m-%d" ++ layout.divider ++ "%H:%M:%S%.f" ++
    match layout.beforeOffset with
    | some gap => gap ++ "%:z"
    | none => ""

def write (layout : TimestampLayout) (t : LocalTime) (offset : Int) : String :=
  t.date.text ++ layout.divider ++ t.clockText ++
    match layout.beforeOffset with
    | some gap => gap ++ offsetText offset
    | none => ""

end TimestampLayout

namespace Timestamp

def literalLayout : TimestampLayout := ⟨"T", some ""⟩

def format (layout : TimestampLayout) (t : Timestamp) : String := layout.write t.toLocal t.offset

/-- The interchange form, in which UTC is written `Z`. There is none when the clock at the timestamp's
own offset reads a date beyond the ends of the calendar. -/
def interchangeText? (t : Timestamp) : Option String :=
  if InRange (t.seconds + t.offset) then
    some (TimestampLayout.write ⟨"T", none⟩ t.toLocal t.offset ++
      if t.offset = 0 then "Z" else offsetText t.offset)
  else none

end Timestamp
end SqlFragment
