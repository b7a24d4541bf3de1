import SqlFragment.Proofs.Time.Literal

/-
Timestamp literals with parts left out. A date, a time and an offset may each be written or not, as
long as there is a date or a time. The reader tries them in this order on the text that is left, so
it has to be seen that none of them is taken for another one: a time has a colon where a date has
digits, an offset begins with a letter or a sign, and nothing that stands behind a time can be read
as more of it.

The clock that gives the missing parts is supposed to be in the calendar, at a second of the day and
not on the first or last day: an offset can lead from there to a day that the calendar does not have.
-/
namespace SqlFragment

/-- A clock that shows a second of a day, neither the first nor the last one of the calendar. -/
structure LocalTime.Running (t : LocalTime) : Prop where
  date : t.date.Valid
  started : t.date ≠ ⟨-262143, 1, 1⟩
  goesOn : t.date ≠ ⟨262142, 12, 31⟩
  second : t.second < 86400

/-- Days whose neighbours are in the calendar as well. -/
def Date.Inner (d : Date) : Prop := -96465292 < d.toDayNumber ∧ d.toDayNumber < 95026236

theorem Date.inner_of_year {d : Date} (valid : d.Valid) (start : -262143 < d.year)
    (stop : d.year < 262142) : d.Inner := by
  have bounds := Date.toDayNumber_bounds valid
  simp only [Date.daysBeforeYear, Date.epochDay] at bounds
  constructor <;> omega

theorem LocalTime.Running.inner {t : LocalTime} (running : t.Running) : t.date.Inner := by
  have bounds := Date.toDayNumber_bounds running.date
  have found := Date.ofDayNumber_toDayNumber running.date
  obtain ⟨start, stop, -⟩ := running.date
  have notFirst : t.date.toDayNumber ≠ -96465292 := by
    intro first
    rw [first] at found
    exact running.started (found.symm.trans (by decide))
  have notLast : t.date.toDayNumber ≠ 95026236 := by
    intro last
    rw [last] at found
    exact running.goesOn (found.symm.trans (by decide))
  simp only [Date.daysBeforeYear, Date.epochDay] at bounds
  constructor <;> omega

/-- A reading on such a day is one of an instant, whatever the offset is. -/
theorem Timestamp.ofLocal?_inner {reading : LocalTime} {offset : Int} (inner : reading.date.Inner)
    (second : reading.second < 86400) (fits : OffsetFits offset) :
    ∃ t, ofLocal? reading offset = some t := by
  obtain ⟨first, last⟩ := inner
  obtain ⟨low, high⟩ := fits
  refine ⟨_, if_pos ?_⟩
  constructor <;> omega

namespace Timestamp.Literal

structure Fraction where
  width : Nat
  value : Nat
  positive : 0 < width
  most : width ≤ 9
  fits : value < Nat.pow 10 width

namespace Fraction

def text (f : Fraction) : String := "." ++ Text.padded f.width f.value

/-- The fraction in thousand millionths of a second. -/
def nanos (f : Fraction) : Nat := Nat.pow 10 (9 - f.width) * f.value

end Fraction

/-- What may be written behind hours and minutes. -/
inductive Seconds where
  | missing
  | whole (second : Fin 60)
  | exact (second : Fin 60) (fraction : Fraction)

namespace Seconds

def text : Seconds → String
  | missing => ""
  | whole second => ":" ++ Text.padded 2 second
  | exact second fraction => ":" ++ Text.padded 2 second ++ fraction.text

def count : Seconds → Nat
  | missing => 0
  | whole second | exact second _ => second

def nanos : Seconds → Nat
  | missing | whole _ => 0
  | exact _ fraction => fraction.nanos

end Seconds

structure Time where
  hour : Fin 24
  minute : Fin 60
  seconds : Seconds

namespace Time

def text (t : Time) : String :=
  Text.padded 2 t.hour ++ ":" ++ Text.padded 2 t.minute ++ t.seconds.text

/-- Seconds since midnight, and nanoseconds. -/
def reading (t : Time) : Nat × Nat :=
  (t.hour * 3600 + t.minute * 60 + t.seconds.count, t.seconds.nanos)

end Time

/-- An offset as it is written; all of them are under a day. -/
inductive Zone where
  | zulu (capital : Bool)
  | hours (west : Bool) (hours : Fin 24)
  /-- Hours and minutes, with or without a colon between them. -/
  | minutes (west colon : Bool) (hours minutes : Nat) (digits : minutes < 100)
      (fits : hours * 3600 + minutes * 60 < 86400)

namespace Zone

def sign (west : Bool) : String := if west then "-" else "+"

/-- Seconds east of UTC. -/
def eastward (west : Bool) (seconds : Nat) : Int := if west then -seconds else seconds

def text : Zone → String
  | zulu capital => if capital then "Z" else "z"
  | hours west h => sign west ++ Text.padded 2 h
  | minutes west colon h m _ _ =>
    sign west ++ Text.padded 2 h ++ (if colon then ":" else "") ++ Text.padded 2 m

def seconds : Zone → Int
  | zulu _ => 0
  | hours west h => eastward west (h * 3600)
  | minutes west _ h m _ _ => eastward west (h * 3600 + m * 60)

end Zone

def shown {α : Type} (text : α → String) : Option α → String
  | some a => text a
  | none => ""

/-- What is written in a literal: at least a date or a time. -/
structure Parts where
  date : Option Date
  time : Option Time
  offset : Option Zone
  /-- Stands between a date and a time. -/
  divider : Char
  legible : ∀ d ∈ date, d.Valid ∧ 0 ≤ d.year ∧ d.year ≤ 9999
  divides : divider ∈ ['T', 't', ' ']
  something : date.isSome ∨ time.isSome

namespace Parts

def between (p : Parts) : String :=
  if p.date.isSome && p.time.isSome then String.singleton p.divider else ""

def text (p : Parts) : String :=
  shown Date.text p.date ++ p.between ++ shown Time.text p.time ++ shown Zone.text p.offset

/-- What a clock reads that shows the parts; it takes those that are missing from the present. -/
def reading (p : Parts) (now : LocalTime) : LocalTime :=
  let (second, nanos) := (p.time.map Time.reading).getD (now.second, now.nanos)
  ⟨p.date.getD now.date, second, nanos⟩

end Parts

section
variable {rest : List Char}

/-- What follows a time cannot be taken for more of it. -/
def EndsTime (rest : List Char) : Prop :=
  EndsFraction rest ∧ ∀ c, rest.head? = some c → c ≠ ':'

theorem seconds?_text (s : Seconds) (ends : EndsTime rest) :
    seconds? (s.text.toList ++ rest) = some (s.count, s.nanos, rest) := by
  cases s with
  | missing =>
    have colon : Text.after? ':' rest = none :=
      Text.after?_eq_none fun first => ends.2 ':' first rfl
    simp [Seconds.text, Seconds.count, Seconds.nanos, seconds?, colon]
  | whole second =>
    have read := seconds?_whole (by omega : second.val < 100) ends.1
    simpa [Seconds.text, Seconds.count, Seconds.nanos] using read
  | exact second fraction =>
    have read := seconds?_point (by omega : second.val < 100) fraction.positive fraction.most
      fraction.fits ends.1
    simpa [Seconds.text, Fraction.text, Seconds.count, Seconds.nanos, Fraction.nanos] using read

theorem time?_text (t : Time) (ends : EndsTime rest) :
    time? (t.text.toList ++ rest) = some (t.reading, rest) := by
  have hour := Text.fixedDigits?_padded (by decide : 0 < 2)
    (by show t.hour.val < 100; omega)
  have minute := Text.fixedDigits?_padded (by decide : 0 < 2)
    (by show t.minute.val < 100; omega)
  have second := seconds?_text t.seconds ends
  have bound : t.seconds.count < 60 := by
    cases t.seconds <;> simp [Seconds.count]
  simp [time?, Time.text, Time.reading, hour, minute, second, bound]

theorem date?_time (t : Time) (rest : List Char) : date? (t.text.toList ++ rest) = none := by
  have length := Text.length_padded (by decide : 0 < 2) (by show t.hour.val < 100; omega)
  have year : Text.fixedDigits? 4 ((Text.padded 2 t.hour).toList ++
      ':' :: ((Text.padded 2 t.minute).toList ++ (t.seconds.text.toList ++ rest))) = none :=
    Text.fixedDigits?_eq_none (by rw [length]; decide) (by decide)
  simp [date?, Time.text, year]

theorem offsetFits_eastward (west : Bool) {n : Nat} (under : n < 86400) :
    OffsetFits (Zone.eastward west n) := by
  cases west <;> simp only [Zone.eastward, OffsetFits, Bool.false_eq_true, ↓reduceIte] <;> omega

theorem offset?_sign (west : Bool) {hours minutes : Nat} (read : offsetMinutes rest = (minutes, []))
    (fits : hours * 3600 + minutes * 60 < 86400) :
    offset? ((Zone.sign west).toList ++ ((Text.padded 2 hours).toList ++ rest)) =
      some (Zone.eastward west (hours * 3600 + minutes * 60), []) := by
  have digits : hours < 100 := by omega
  have fits := offsetFits_eastward west fits
  cases west with
  | true =>
    have text : (Zone.sign true).toList = ['-'] := rfl
    rw [text, List.singleton_append, offset?]
    exact signedOffset?_padded digits read (Int.neg_one_mul _) fits
  | false =>
    have text : (Zone.sign false).toList = ['+'] := rfl
    rw [text, List.singleton_append, offset?]
    exact signedOffset?_padded digits read (Int.one_mul _) fits

theorem offset?_text (z : Zone) : offset? z.text.toList = some (z.seconds, []) := by
  cases z with
  | zulu capital => cases capital <;> rfl
  | hours west h =>
    have none : offsetMinutes [] = (0, []) := rfl
    have read := offset?_sign west none (by omega : h.val * 3600 + 0 * 60 < 86400)
    simpa [Zone.text, Zone.seconds] using read
  | minutes west colon h m digits fits =>
    have optional : (if colon then ":" else "").toList = [':'] ∨
        (if colon then ":" else "").toList = [] := by
      cases colon <;> simp
    have read := offset?_sign west (offsetMinutes_padded digits optional) fits
    simpa [Zone.text, Zone.seconds] using read

theorem zone_cons (z : Zone) :
    ∃ c tail, z.text.toList = c :: tail ∧ c ∈ ['Z', 'z', '+', '-'] := by
  have signed (west : Bool) : (Zone.sign west).toList = ['+'] ∨ (Zone.sign west).toList = ['-'] := by
    cases west <;> simp [Zone.sign]
  cases z with
  | zulu capital =>
    cases capital
    · exact ⟨'z', [], rfl, by decide⟩
    · exact ⟨'Z', [], rfl, by decide⟩
  | hours west h | minutes west colon h m _ _ =>
    obtain sign | sign := signed west <;>
      simp [Zone.text, sign]

/-- Where nothing or an offset follows, a time is at its end and none begins, and there is nothing
that divides. -/
theorem apart_of_offset (offset : Option Zone) :
    EndsTime (shown Zone.text offset).toList ∧ time? (shown Zone.text offset).toList = none ∧
      skipDivider (shown Zone.text offset).toList = (shown Zone.text offset).toList := by
  cases offset with
  | none => exact ⟨⟨nofun, nofun⟩, rfl, rfl⟩
  | some z =>
    obtain ⟨c, tail, text, mem⟩ := zone_cons z
    have marks : ∀ c ∈ ['Z', 'z', '+', '-'],
        c.isDigit = false ∧ c ≠ '.' ∧ c ≠ ':' ∧ c ∉ ['T', 't', ' '] := by simp
    obtain ⟨mark, point, colon, other⟩ := marks c mem
    rw [shown, text]
    refine ⟨⟨?_, ?_⟩, ?_, ?_⟩
    · rintro _ ⟨rfl⟩
      exact ⟨point, mark⟩
    · rintro _ ⟨rfl⟩
      exact colon
    · have hour : Text.fixedDigits? 2 ([] ++ c :: tail) = none :=
        Text.fixedDigits?_eq_none (by decide) mark
      rw [List.nil_append] at hour
      rw [time?, hour]
      rfl
    · unfold skipDivider
      split <;> simp_all

theorem optional_shown {α β : Type} {part? : List Char → Option (β × List Char)} {text : α → String}
    (value : α → β) {part : Option α}
    (present : ∀ a ∈ part, part? ((text a).toList ++ rest) = some (value a, rest))
    (absent : part = none → part? rest = none) :
    optional part? ((shown text part).toList ++ rest) = (part.map value, rest) := by
  cases part with
  | none => simp [shown, optional, absent rfl]
  | some a => simp [shown, optional, present a rfl]

end

namespace Parts
variable (p : Parts)

theorem text_toList : p.text.toList = (shown Date.text p.date).toList ++ (p.between.toList ++
    ((shown Time.text p.time).toList ++ (shown Zone.text p.offset).toList)) := by
  simp only [text, String.toList_append, List.append_assoc]

theorem optional_date : optional date? p.text.toList = (p.date, p.between.toList ++
    ((shown Time.text p.time).toList ++ (shown Zone.text p.offset).toList)) := by
  rw [text_toList, optional_shown id, Option.map_id_apply]
  · intro d mem
    obtain ⟨valid, start, stop⟩ := p.legible d mem
    exact date?_text valid start stop _
  · intro undated
    have timed := p.something
    rw [undated, Option.isSome_none] at timed
    obtain ⟨t, written⟩ := Option.isSome_iff_exists.mp (timed.resolve_left Bool.false_ne_true)
    simpa [between, undated, written, shown] using date?_time t _

theorem skip_between :
    (if p.date.isSome then
        skipDivider (p.between.toList ++
          ((shown Time.text p.time).toList ++ (shown Zone.text p.offset).toList))
      else p.between.toList ++
        ((shown Time.text p.time).toList ++ (shown Zone.text p.offset).toList)) =
      (shown Time.text p.time).toList ++ (shown Zone.text p.offset).toList := by
  cases dated : p.date with
  | none => simp [between, dated]
  | some d =>
    cases timed : p.time with
    | none => simpa [between, dated, timed, shown] using (apart_of_offset p.offset).2.2
    | some t =>
      have divides := p.divides
      simp only [List.mem_cons, List.not_mem_nil, or_false] at divides
      obtain mark | mark | mark := divides <;> simp [between, dated, timed, mark, skipDivider]

theorem optional_time :
    optional time? ((shown Time.text p.time).toList ++ (shown Zone.text p.offset).toList) =
      (p.time.map Time.reading, (shown Zone.text p.offset).toList) := by
  obtain ⟨ends, untimed, -⟩ := apart_of_offset p.offset
  exact optional_shown Time.reading (fun t _ => time?_text t ends) fun _ => untimed

theorem optional_offset :
    optional offset? (shown Zone.text p.offset).toList = (p.offset.map Zone.seconds, []) := by
  cases p.offset with
  | none => rfl
  | some z => rw [shown, optional, offset?_text z, Option.map_some]

theorem read?_text (now : LocalTime) : read? now p.text.toList =
    ofLocal? (p.reading now) ((p.offset.map Zone.seconds).getD 0) := by
  have something : (p.date.isNone && p.time.isNone) = false := by
    obtain dated | timed := p.something
    · rw [← Option.not_isSome, dated, Bool.not_true, Bool.false_and]
    · rw [← Option.not_isSome p.time, timed, Bool.not_true, Bool.and_false]
  simp only [read?, optional_date, skip_between, optional_time, optional_offset,
    Option.isNone_map, something, Bool.false_eq_true, ↓reduceIte, List.isEmpty_nil]
  rfl

theorem reading_second {now : LocalTime} (running : now.Running) :
    (p.reading now).second < 86400 := by
  cases timed : p.time with
  | none => simpa [reading, timed] using running.second
  | some t =>
    have bound : t.seconds.count < 60 := by
      cases t.seconds <;> simp [Seconds.count]
    simp only [reading, timed, Option.map_some, Option.getD_some, Time.reading]
    omega

theorem reading_date {now : LocalTime} (running : now.Running) :
    (p.reading now).date.Valid ∧ (p.reading now).date.Inner := by
  cases dated : p.date with
  | none =>
    simp only [reading, dated, Option.getD_none]
    exact ⟨running.date, running.inner⟩
  | some d =>
    obtain ⟨valid, start, stop⟩ := p.legible d dated
    simp only [reading, dated, Option.getD_some]
    exact ⟨valid, Date.inner_of_year valid (by omega) (by omega)⟩

theorem offset_fits : OffsetFits ((p.offset.map Zone.seconds).getD 0) := by
  cases p.offset with
  | none => decide
  | some z => exact (offset?_fits (offset?_text z)).1

end Parts

/-- Every literal that is written with a date, a time or both, and with or without an offset, is read.
The clock at the offset of the result shows the date and the time that are written, whichever of the
other parts there are; what is missing comes from the present, and a missing offset is that of UTC.
The present is a clock that is running within the calendar. -/
theorem read?_written_parts (now : LocalTime) (running : now.Running) (p : Parts) :
    ∃ t, read? now p.text.toList = some t ∧ t.toLocal = p.reading now ∧
      t.offset = (p.offset.map Zone.seconds).getD 0 := by
  obtain ⟨valid, inner⟩ := p.reading_date running
  have second := p.reading_second running
  obtain ⟨t, made⟩ := ofLocal?_inner inner second p.offset_fits
  refine ⟨t, ?_, toLocal_ofLocal? valid second made, offset_ofLocal? made⟩
  rw [p.read?_text, made]

/-- A negative offset right behind a date, and one right behind hours and minutes. -/
theorem read?_offset_behind_date :
    let now : LocalTime := ⟨⟨2024, 3, 1⟩, 3723, 5⟩
    now.Running ∧
    (∃ t, read? now "2024-02-29-0130".toList = some t ∧
      t.toLocal = ⟨⟨2024, 2, 29⟩, 3723, 5⟩ ∧ t.offset = -5400) ∧
    ∃ t, read? now "08:15+22:99".toList = some t ∧
      t.toLocal = ⟨⟨2024, 3, 1⟩, 29700, 0⟩ ∧ t.offset = 85140 := by
  intro now
  have running : now.Running := ⟨by decide, by decide, by decide, by decide⟩
  let dated : Parts :=
    { date := some ⟨2024, 2, 29⟩, time := none, divider := 'T'
      offset := some (.minutes true false 1 30 (by decide) (by decide))
      legible := by decide, divides := by decide, something := by decide }
  let timed : Parts :=
    { date := none, time := some ⟨8, 15, .missing⟩, divider := 'T'
      offset := some (.minutes false true 22 99 (by decide) (by decide))
      legible := by decide, divides := by decide, something := by decide }
  exact ⟨running, read?_written_parts now running dated, read?_written_parts now running timed⟩

end Timestamp.Literal
end SqlFragment
