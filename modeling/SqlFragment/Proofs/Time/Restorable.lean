import SqlFragment.Proofs.Time.Literal

/-
Which timestamps a literal restores: those that show a year of four digits, no leap second and an
offset of whole minutes. A literal in the layout of expressions has a date and a time, so the clock
has no part in this.
-/
namespace SqlFragment

namespace Timestamp

theorem eq_of_sameInstant {t t' : Timestamp} (same : t'.sameInstant t = true)
    (offset : t'.offset = t.offset) : t' = t := by
  cases t'
  cases t
  simp_all [sameInstant]

theorem ofLocal?_toLocal {t : Timestamp} (instant : InRange t.seconds) :
    ofLocal? t.toLocal t.offset = some t := by
  obtain ⟨-, -, -, -, number⟩ := Date.ofDayNumber_spec ((t.seconds + t.offset) / 86400)
  have seconds : (Date.ofDayNumber ((t.seconds + t.offset) / 86400)).toDayNumber * 86400 +
      ((t.seconds + t.offset) % 86400).toNat - t.offset = t.seconds := by omega
  simp only [ofLocal?, toLocal, seconds, if_pos instant]

theorem valid_toLocal {t : Timestamp} (start : 0 ≤ t.toLocal.date.year)
    (stop : t.toLocal.date.year ≤ 9999) : t.toLocal.date.Valid := by
  obtain ⟨firstMonth, lastMonth, firstDay, lastDay, -⟩ :=
    Date.ofDayNumber_spec ((t.seconds + t.offset) / 86400)
  exact ⟨by omega, by omega, firstMonth, lastMonth, firstDay, lastDay⟩

theorem restorable_iff {t : Timestamp} (instant : InRange t.seconds) (fits : OffsetFits t.offset) :
    t.Restorable ↔ (0 ≤ t.toLocal.date.year ∧ t.toLocal.date.year ≤ 9999) ∧
      t.nanos < 1000000000 ∧ t.offset % 60 = 0 := by
  constructor
  · rintro ⟨reading, ordinary, -, minutes, shown⟩
    obtain ⟨valid, start, stop, second, nanos⟩ := ordinary
    have reads := toLocal_ofLocal? valid second shown
    rw [← reads] at start stop nanos
    exact ⟨⟨start, stop⟩, nanos, minutes⟩
  · rintro ⟨⟨start, stop⟩, nanos, minutes⟩
    have second : ((t.seconds + t.offset) % 86400).toNat < 86400 := by omega
    exact ⟨t.toLocal, ⟨valid_toLocal start stop, start, stop, second, nanos⟩, fits, minutes,
      ofLocal?_toLocal instant⟩

namespace Literal
variable {c : Char} {rest : List Char}

theorem fixedDigits?_of_mark (width : Nat) (mark : c.isDigit = false) :
    Text.fixedDigits? (width + 1) (c :: rest) = none := by
  have short : ([] : List Char).length < width + 1 := Nat.succ_pos width
  exact Text.fixedDigits?_eq_none short mark

theorem offset?_of_digit (digit : c.isDigit = true) : offset? (c :: rest) = none := by
  unfold offset?
  split <;> simp_all

theorem clockText_cons (t : LocalTime) :
    ∃ c tail, t.clockText.toList = c :: tail ∧ c.isDigit = true := by
  obtain ⟨c, tail, text, digit⟩ := Text.padded_cons 2 (t.second / 3600)
  exact ⟨c, _, by simp [LocalTime.clockText, text]; rfl, digit⟩

theorem dateText_signed {d : Date} (beyond : ¬(0 ≤ d.year ∧ d.year ≤ 9999)) :
    ∃ sign tail, d.text.toList = sign :: tail ∧ sign.isDigit = false := by
  by_cases before : d.year < 0
  · exact ⟨'-', _, by simp [Date.text, yearText, beyond, before]; rfl, by decide⟩
  · exact ⟨'+', _, by simp [Date.text, yearText, beyond, before]; rfl, by decide⟩

/-- Behind a date there is a time or nothing that can be read, and without a date nothing can. -/
theorem read?_format_clock (t : Timestamp) (now now' : LocalTime) :
    read? now (t.format literalLayout).toList = read? now' (t.format literalLayout).toList := by
  rw [format_toList]
  by_cases shown : 0 ≤ t.toLocal.date.year ∧ t.toLocal.date.year ≤ 9999
  · have date := date?_text (valid_toLocal shown.1 shown.2) shown.1 shown.2
      ('T' :: (t.toLocal.clockText.toList ++ (offsetText t.offset).toList))
    obtain ⟨c, tail, clock, digit⟩ := clockText_cons t.toLocal
    rw [clock, List.cons_append] at date ⊢
    cases time : time? (c :: (tail ++ (offsetText t.offset).toList)) with
    | some found =>
      simp only [read?, optional, date, time, skipDivider, Option.isSome_some, if_true,
        Option.getD_some]
    | none =>
      simp only [read?, optional, date, time, skipDivider, Option.isSome_some, if_true,
        offset?_of_digit digit, List.isEmpty_cons, Bool.false_eq_true, if_false]
  · obtain ⟨sign, tail, text, mark⟩ := dateText_signed shown
    rw [text, List.cons_append]
    simp only [read?, optional, date?, time?, fixedDigits?_of_mark _ mark, Option.bind_eq_bind,
      Option.bind_none, Option.isSome_none, Bool.false_eq_true, if_false, Option.isNone_none,
      Bool.and_self, if_true]

/-- A literal in the layout of expressions denotes a restorable timestamp, if it denotes one. -/
theorem restorable_of_read?_format {t t' : Timestamp} {now : LocalTime}
    (read : read? now (t.format literalLayout).toList = some t') : t'.Restorable := by
  have clock : LocalTime.Ordinary ⟨⟨1970, 1, 1⟩, 0, 0⟩ := by decide
  rw [read?_format_clock t now ⟨⟨1970, 1, 1⟩, 0, 0⟩] at read
  exact restorable_of_read? clock read

end Literal
end Timestamp
end SqlFragment
