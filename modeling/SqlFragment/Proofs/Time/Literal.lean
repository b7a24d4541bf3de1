import SqlFragment.Proofs.Text.RoundTrip
import SqlFragment.Proofs.Time.Calendar
import SqlFragment.Time.Literal

/-
Timestamp literals: the layout of timestamps in expressions is read back as the timestamp it shows,
and what is read from a literal can be shown in that layout.
-/
namespace SqlFragment.Text

theorem isDigit_of_mem_padded {width n : Nat} {c : Char} (mem : c ∈ (padded width n).toList) :
    c.isDigit := by
  rw [padded, String.toList_ofList, List.leftpad, List.mem_append, List.mem_replicate] at mem
  obtain ⟨-, rfl⟩ | mem := mem
  · rfl
  · exact Integer.isDigit_of_mem_toDigits mem

theorem padded_cons (width n : Nat) :
    ∃ c tail, (padded width n).toList = c :: tail ∧ c.isDigit = true := by
  have some : (padded width n).toList ≠ [] := by
    simp [padded, List.leftpad, Nat.toDigits_ne_nil]
  obtain ⟨c, tail, text⟩ := List.exists_cons_of_ne_nil some
  exact ⟨c, tail, text, isDigit_of_mem_padded (by rw [text]; exact List.mem_cons_self)⟩

theorem length_padded {width n : Nat} (positive : 0 < width) (fits : n < Nat.pow 10 width) :
    (padded width n).toList.length = width := by
  have short := (Nat.length_toDigits_le_iff (by decide : 1 < 10) positive).2 fits
  rw [padded, String.toList_ofList, List.length_leftpad, Nat.max_eq_left short]

theorem digitsValue_padded (width n : Nat) : digitsValue (padded width n).toList = n := by
  rw [padded, String.toList_ofList, digitsValue, List.leftpad, Nat.ofDigitChars_append,
    Nat.ofDigitChars_replicate_zero, Nat.mul_zero]
  exact digitsValue_toDigits n

theorem fixedDigits?_padded {width n : Nat} (positive : 0 < width) (fits : n < Nat.pow 10 width)
    (rest : List Char) :
    fixedDigits? width ((padded width n).toList ++ rest) = some (n, rest) := by
  have length := length_padded positive fits
  have digits : (padded width n).toList.all Char.isDigit :=
    List.all_eq_true.2 fun c mem => isDigit_of_mem_padded mem
  rw [fixedDigits?, List.take_left' length, List.drop_left' length, if_pos ⟨length, digits⟩,
    digitsValue_padded]

theorem ofDigitChars_lt {ds : List Char} (digits : ∀ c ∈ ds, c.isDigit) (init : Nat) :
    Nat.ofDigitChars 10 ds init < (init + 1) * Nat.pow 10 ds.length := by
  induction ds generalizing init with
  | nil => simp
  | cons c cs ih =>
    have digit : c.toNat - '0'.toNat ≤ 9 := by
      have bounds := Char.isDigit_iff_toNat.1 (digits c List.mem_cons_self)
      have codes : '0'.toNat = 48 ∧ '9'.toNat = 57 := ⟨rfl, rfl⟩
      omega
    have tail := ih (fun d mem => digits d (List.mem_cons_of_mem c mem))
      (10 * init + (c.toNat - '0'.toNat))
    calc Nat.ofDigitChars 10 (c :: cs) init
        = Nat.ofDigitChars 10 cs (10 * init + (c.toNat - '0'.toNat)) := Nat.ofDigitChars_cons
      _ < (10 * init + (c.toNat - '0'.toNat) + 1) * Nat.pow 10 cs.length := tail
      _ ≤ ((init + 1) * 10) * Nat.pow 10 cs.length := Nat.mul_le_mul_right _ (by omega)
      _ = (init + 1) * Nat.pow 10 (c :: cs).length := by
        rw [Nat.mul_assoc, Nat.mul_comm 10]
        rfl

theorem digitsValue_lt {ds : List Char} (digits : ∀ c ∈ ds, c.isDigit) :
    digitsValue ds < Nat.pow 10 ds.length := by
  have bound := ofDigitChars_lt digits 0
  rwa [Nat.zero_add, Nat.one_mul] at bound

theorem lt_of_fixedDigits? {width n : Nat} {cs rest : List Char}
    (h : fixedDigits? width cs = some (n, rest)) : n < Nat.pow 10 width := by
  simp only [fixedDigits?, Option.ite_none_right_eq_some, Option.some.injEq, Prod.mk.injEq] at h
  obtain ⟨⟨length, digits⟩, rfl, -⟩ := h
  have bound := digitsValue_lt (List.all_eq_true.1 digits)
  rwa [length] at bound

theorem fixedDigits?_eq_none {width : Nat} {front rest : List Char} {c : Char}
    (short : front.length < width) (mark : c.isDigit = false) :
    fixedDigits? width (front ++ c :: rest) = none := by
  have reached : c ∈ (front ++ c :: rest).take width := by
    obtain ⟨more, left⟩ := Nat.exists_eq_succ_of_ne_zero (Nat.sub_ne_zero_of_lt short)
    rw [List.take_append, left, List.take_succ_cons]
    exact List.mem_append_right _ List.mem_cons_self
  have other : ((front ++ c :: rest).take width).all Char.isDigit = false :=
    List.all_eq_false.2 ⟨c, reached, by simp [mark]⟩
  rw [fixedDigits?, if_neg]
  simp [other]

theorem suffix_of_fixedDigits? {width n : Nat} {cs rest : List Char}
    (read : fixedDigits? width cs = some (n, rest)) : rest <:+ cs := by
  simp only [fixedDigits?, Option.ite_none_right_eq_some, Option.some.injEq, Prod.mk.injEq] at read
  obtain ⟨-, -, rfl⟩ := read
  exact List.drop_suffix width cs

end SqlFragment.Text

namespace SqlFragment

/-- A reading outside leap seconds, in a year of four digits. -/
def LocalTime.Ordinary (t : LocalTime) : Prop :=
  t.date.Valid ∧ 0 ≤ t.date.year ∧ t.date.year ≤ 9999 ∧ t.second < 86400 ∧ t.nanos < 1000000000

instance (t : LocalTime) : Decidable t.Ordinary := inferInstanceAs (Decidable (_ ∧ _))

/-- The timestamps that a literal can show: an ordinary reading at an offset of whole minutes. -/
def Timestamp.Restorable (t : Timestamp) : Prop :=
  ∃ reading : LocalTime, reading.Ordinary ∧ OffsetFits t.offset ∧ t.offset % 60 = 0 ∧
    ofLocal? reading t.offset = some t

theorem Timestamp.toLocal_ofLocal? {reading : LocalTime} {offset : Int} {t : Timestamp}
    (valid : reading.date.Valid) (second : reading.second < 86400)
    (h : ofLocal? reading offset = some t) : t.toLocal = reading := by
  simp only [ofLocal?, Option.ite_none_right_eq_some, Option.some.injEq] at h
  obtain ⟨-, rfl⟩ := h
  have day : (reading.date.toDayNumber * 86400 + reading.second - offset + offset) / 86400 =
      reading.date.toDayNumber := by omega
  have clock : (reading.date.toDayNumber * 86400 + reading.second - offset + offset) % 86400 =
      reading.second := by omega
  simp only [toLocal, day, clock, Date.ofDayNumber_toDayNumber valid, Int.toNat_natCast]

namespace Timestamp.Literal

@[simp]
theorem after?_cons (c : Char) (rest : List Char) : Text.after? c (c :: rest) = some rest :=
  if_pos rfl

theorem date?_text {d : Date} (valid : d.Valid) (start : 0 ≤ d.year) (stop : d.year ≤ 9999)
    (rest : List Char) : date? (d.text.toList ++ rest) = some (d, rest) := by
  have longest := Date.monthLength_le (Date.isLeap d.year) (d.month - 1)
  obtain ⟨-, -, firstMonth, lastMonth, firstDay, lastDay⟩ := id valid
  have year := Text.fixedDigits?_padded (by decide : 0 < 4)
    (by show d.year.toNat < 10000; omega)
  have month := Text.fixedDigits?_padded (by decide : 0 < 2) (by show d.month < 100; omega)
  have day := Text.fixedDigits?_padded (by decide : 0 < 2) (by show d.day < 100; omega)
  have back : ((d.year.toNat : Nat) : Int) = d.year := by omega
  simp [date?, Date.text, yearText, start, stop, year, month, day, back, Date.ofYmd?, valid]

/-- What follows a fraction of a second cannot be taken for more of it. -/
def EndsFraction (rest : List Char) : Prop :=
  ∀ c, rest.head? = some c → c ≠ '.' ∧ c.isDigit = false

theorem digitsValue_rightpad (ds : List Char) (width : Nat) :
    Text.digitsValue (ds.rightpad width '0') =
      Nat.pow 10 (width - ds.length) * Text.digitsValue ds := by
  rw [Text.digitsValue, List.rightpad, Nat.ofDigitChars_append, Nat.ofDigitChars_replicate_zero]
  rfl

theorem seconds?_whole {second : Nat} {rest : List Char} (small : second < 100)
    (ends : EndsFraction rest) :
    seconds? (':' :: ((Text.padded 2 second).toList ++ rest)) = some (second, 0, rest) := by
  have read := Text.fixedDigits?_padded (by decide : 0 < 2) small rest
  have point : Text.after? '.' rest = none :=
    Text.after?_eq_none fun first => (ends '.' first).1 rfl
  simp [seconds?, read, point]

theorem seconds?_point {second width n : Nat} {rest : List Char} (small : second < 100)
    (positive : 0 < width) (most : width ≤ 9) (fits : n < Nat.pow 10 width)
    (ends : EndsFraction rest) :
    seconds? (':' :: ((Text.padded 2 second).toList ++
        '.' :: ((Text.padded width n).toList ++ rest))) =
      some (second, Nat.pow 10 (9 - width) * n, rest) := by
  have read := Text.fixedDigits?_padded (by decide : 0 < 2) small
    ('.' :: ((Text.padded width n).toList ++ rest))
  have length := Text.length_padded positive fits
  have digits : ((Text.padded width n).toList ++ rest).takeWhile Char.isDigit =
      (Text.padded width n).toList := by
    rw [List.takeWhile_append_of_pos fun c mem => Text.isDigit_of_mem_padded mem]
    cases rest with
    | nil => simp
    | cons c rest => simp [(ends c rfl).2]
  have some : ¬(Text.padded width n).toList = [] := by
    intro nothing
    rw [nothing] at length
    exact absurd length (Nat.ne_of_lt positive)
  have value := digitsValue_rightpad (Text.padded width n).toList 9
  rw [length, Text.digitsValue_padded] at value
  simp only [seconds?, after?_cons, read, digits, List.isEmpty_iff, some, length, value,
    Option.pure_def, Option.bind_eq_bind, Option.bind_some, false_or, Nat.not_lt.2 most,
    if_false, List.drop_left' length]

/-- A fraction is left out, or shown with enough digits to be exact. -/
theorem fractionText_cases {nanos : Nat} (fits : nanos < 1000000000) :
    (nanos = 0 ∧ fractionText nanos = "") ∨ ∃ width n, 0 < width ∧ width ≤ 9 ∧
      n < Nat.pow 10 width ∧ Nat.pow 10 (9 - width) * n = nanos ∧
      fractionText nanos = "." ++ Text.padded width n := by
  have whole : nanos % 1000000000 = nanos := Nat.mod_eq_of_lt fits
  simp only [fractionText, whole]
  by_cases zero : nanos = 0
  · exact .inl ⟨zero, if_pos zero⟩
  rw [if_neg zero]
  by_cases thousandths : nanos % 1000000 = 0
  · refine .inr ⟨3, nanos / 1000000, by decide, by decide, ?_, ?_, if_pos thousandths⟩
    · show nanos / 1000000 < 1000
      omega
    · show 1000000 * (nanos / 1000000) = nanos
      omega
  rw [if_neg thousandths]
  by_cases millionths : nanos % 1000 = 0
  · refine .inr ⟨6, nanos / 1000, by decide, by decide, ?_, ?_, if_pos millionths⟩
    · show nanos / 1000 < 1000000
      omega
    · show 1000 * (nanos / 1000) = nanos
      omega
  · exact .inr ⟨9, nanos, by decide, by decide, fits, Nat.one_mul nanos, if_neg millionths⟩

theorem seconds?_fractionText {second nanos : Nat} {rest : List Char} (small : second < 100)
    (fits : nanos < 1000000000) (ends : EndsFraction rest) :
    seconds? (':' :: ((Text.padded 2 second).toList ++ ((fractionText nanos).toList ++ rest))) =
      some (second, nanos, rest) := by
  obtain ⟨rfl, shown⟩ | ⟨width, n, positive, most, bound, rfl, shown⟩ := fractionText_cases fits
  · rw [shown]
    exact seconds?_whole small ends
  · have point : ".".toList = ['.'] := rfl
    rw [shown, String.toList_append, List.append_assoc, point, List.singleton_append]
    exact seconds?_point small positive most bound ends

theorem time?_clockText {t : LocalTime} (day : t.second < 86400) (fits : t.nanos < 1000000000)
    {rest : List Char} (ends : EndsFraction rest) :
    time? (t.clockText.toList ++ rest) = some ((t.second, t.nanos), rest) := by
  have hour := Text.fixedDigits?_padded (by decide : 0 < 2)
    (by show t.second / 3600 < 100; omega)
  have minute := Text.fixedDigits?_padded (by decide : 0 < 2)
    (by show t.second / 60 % 60 < 100; omega)
  have second := seconds?_fractionText (by omega : t.second % 60 < 100) fits ends
  have noLeap : t.nanos / 1000000000 = 0 := by omega
  have bounds : t.second / 3600 < 24 ∧ t.second / 60 % 60 < 60 ∧ t.second % 60 < 60 := by omega
  have back : t.second / 3600 * 3600 + t.second / 60 % 60 * 60 + t.second % 60 = t.second := by
    omega
  simp [time?, LocalTime.clockText, hour, minute, second, noLeap, bounds, back]

theorem offsetMinutes_padded {minutes : Nat} {colon : List Char} (fits : minutes < 100)
    (optional : colon = [':'] ∨ colon = []) :
    offsetMinutes (colon ++ (Text.padded 2 minutes).toList) = (minutes, []) := by
  have read := Text.fixedDigits?_padded (by decide : 0 < 2) fits []
  rw [List.append_nil] at read
  obtain rfl | rfl := optional
  · simp [offsetMinutes, read]
  · obtain ⟨c, tail, text, digit⟩ := Text.padded_cons 2 minutes
    have bare : Text.after? ':' (Text.padded 2 minutes).toList = none := by
      rw [text]
      refine Text.after?_eq_none ?_
      rintro ⟨rfl⟩
      exact absurd digit (by decide)
    simp [offsetMinutes, read, bare]

theorem signedOffset?_padded {sign offset : Int} {hours minutes : Nat} {rest : List Char}
    (hourFits : hours < 100) (read : offsetMinutes rest = (minutes, []))
    (total : sign * (hours * 3600 + minutes * 60 : Nat) = offset) (fits : OffsetFits offset) :
    signedOffset? sign ((Text.padded 2 hours).toList ++ rest) = some (offset, []) := by
  have hour := Text.fixedDigits?_padded (by decide : 0 < 2) hourFits rest
  simp only [signedOffset?, hour, Option.bind_eq_bind, Option.bind_some, read, total, if_pos fits,
    Option.pure_def]

theorem offsetText_toList (offset : Int) : (offsetText offset).toList =
    (if offset < 0 then '-' else '+') ::
      ((Text.padded 2 ((offset.natAbs + 30) / 60 / 60)).toList ++
        ':' :: (Text.padded 2 ((offset.natAbs + 30) / 60 % 60)).toList) := by
  unfold offsetText
  by_cases west : offset < 0 <;> simp [west]

theorem offset?_offsetText {offset : Int} (fits : OffsetFits offset) (rounded : offset % 60 = 0) :
    offset? (offsetText offset).toList = some (offset, []) := by
  obtain ⟨low, high⟩ := id fits
  have hourFits : (offset.natAbs + 30) / 60 / 60 < 100 := by omega
  have minutes := offsetMinutes_padded (by omega : (offset.natAbs + 30) / 60 % 60 < 100) (.inl rfl)
  have whole : (offset.natAbs + 30) / 60 / 60 * 3600 + (offset.natAbs + 30) / 60 % 60 * 60 =
      offset.natAbs := by omega
  rw [offsetText_toList]
  by_cases west : offset < 0
  · rw [if_pos west, offset?]
    exact signedOffset?_padded hourFits minutes (by rw [whole]; omega) fits
  · rw [if_neg west, offset?]
    exact signedOffset?_padded hourFits minutes (by rw [whole]; omega) fits

theorem endsFraction_offsetText (offset : Int) : EndsFraction (offsetText offset).toList := by
  rw [offsetText_toList]
  rintro c ⟨rfl⟩
  split <;> decide

theorem format_toList (t : Timestamp) : (t.format literalLayout).toList =
    t.toLocal.date.text.toList ++
      'T' :: (t.toLocal.clockText.toList ++ (offsetText t.offset).toList) := by
  simp [format, literalLayout, TimestampLayout.write]

/-- A literal in the layout of expressions is read as the timestamp it shows. -/
theorem read?_format {t : Timestamp} (restorable : t.Restorable) (now : LocalTime) :
    read? now (t.format literalLayout).toList = some t := by
  obtain ⟨reading, ordinary, fits, minutes, shown⟩ := restorable
  obtain ⟨valid, start, stop, day, nanos⟩ := ordinary
  have date := date?_text valid start stop
    ('T' :: (reading.clockText.toList ++ (offsetText t.offset).toList))
  have time := time?_clockText day nanos (endsFraction_offsetText t.offset)
  have offset := offset?_offsetText fits minutes
  have text : (t.format literalLayout).toList = reading.date.text.toList ++
      'T' :: (reading.clockText.toList ++ (offsetText t.offset).toList) := by
    rw [format_toList, toLocal_ofLocal? valid day shown]
  simp only [read?, text, optional, date, time, offset, skipDivider, Option.isSome_some, if_true,
    Option.isNone_some, Bool.and_self, List.isEmpty_nil, Option.getD_some, Bool.false_eq_true,
    if_false]
  exact shown

def isShown (c : Char) : Bool := c.isDigit || ['-', 'T', ':', '.', '+'].contains c

theorem isShown_padded (width n : Nat) : (Text.padded width n).toList.all isShown := by
  refine List.all_eq_true.2 fun c mem => ?_
  rw [isShown, Text.isDigit_of_mem_padded mem, Bool.true_or]

theorem isShown_append {s t : String} (left : s.toList.all isShown) (right : t.toList.all isShown) :
    (s ++ t).toList.all isShown := by
  rw [String.toList_append, List.all_append, left, right, Bool.and_self]

theorem isShown_sign {p : Prop} [Decidable p] : (if p then "-" else "+").toList.all isShown := by
  split <;> rfl

theorem isShown_yearText (year : Int) : (yearText year).toList.all isShown := by
  unfold yearText
  split
  · exact isShown_padded 4 _
  · exact isShown_append isShown_sign (isShown_padded 4 _)

theorem isShown_fractionText (nanos : Nat) : (fractionText nanos).toList.all isShown := by
  simp only [fractionText]
  split
  · rfl
  split
  · exact isShown_append rfl (isShown_padded 3 _)
  split
  · exact isShown_append rfl (isShown_padded 6 _)
  · exact isShown_append rfl (isShown_padded 9 _)

theorem isShown_format (t : Timestamp) : (t.format literalLayout).toList.all isShown := by
  have date : t.toLocal.date.text.toList.all isShown :=
    isShown_append (isShown_append (isShown_append (isShown_append (isShown_yearText _) rfl)
      (isShown_padded 2 _)) rfl) (isShown_padded 2 _)
  have clock : t.toLocal.clockText.toList.all isShown :=
    isShown_append (isShown_append (isShown_append (isShown_append (isShown_append
      (isShown_padded 2 _) rfl) (isShown_padded 2 _)) rfl) (isShown_padded 2 _))
      (isShown_fractionText _)
  have offset : (offsetText t.offset).toList.all isShown :=
    isShown_append (isShown_append (isShown_append isShown_sign (isShown_padded 2 _)) rfl)
      (isShown_padded 2 _)
  exact isShown_append (isShown_append (isShown_append date rfl) clock) (isShown_append rfl offset)

theorem date?_ordinary {cs rest : List Char} {d : Date} (h : date? cs = some (d, rest)) :
    d.Valid ∧ 0 ≤ d.year ∧ d.year ≤ 9999 := by
  simp only [date?, Option.bind_eq_bind, Option.bind_eq_some_iff, Option.pure_def,
    Option.some.injEq, Prod.mk.injEq, Prod.exists] at h
  obtain ⟨year, afterYear, yearRead, h⟩ := h
  obtain ⟨_, -, month, _, -, _, -, day, _, -, date, made, rfl, -⟩ := h
  have bound : year < 10000 := Text.lt_of_fixedDigits? yearRead
  simp only [Date.ofYmd?, Option.ite_none_right_eq_some, Option.some.injEq] at made
  obtain ⟨valid, rfl⟩ := made
  exact ⟨valid, Int.natCast_nonneg year, by show (year : Int) ≤ 9999; omega⟩

theorem seconds?_nanos {cs rest : List Char} {second nanos : Nat}
    (h : seconds? cs = some (second, nanos, rest)) : nanos < 1000000000 := by
  unfold seconds? at h
  split at h
  · cases h
    decide
  simp only [Option.bind_eq_bind, Option.bind_eq_some_iff, Prod.exists] at h
  obtain ⟨_, after, -, h⟩ := h
  split at h
  · cases h
    decide
  next cs _ =>
    simp only [Option.pure_def, Option.ite_none_left_eq_some, Option.some.injEq,
      Prod.mk.injEq] at h
    obtain ⟨bounds, -, rfl, -⟩ := h
    have length : ((cs.takeWhile Char.isDigit).rightpad 9 '0').length = 9 := by
      simp only [List.rightpad, List.length_append, List.length_replicate]
      omega
    have digits : ∀ c ∈ (cs.takeWhile Char.isDigit).rightpad 9 '0', c.isDigit := by
      intro c mem
      obtain mem | mem := List.mem_append.1 mem
      · exact List.all_eq_true.1 List.all_takeWhile c mem
      · rw [(List.mem_replicate.1 mem).2]
        rfl
    have bound := Text.digitsValue_lt digits
    rwa [length] at bound

theorem time?_ordinary {cs rest : List Char} {second nanos : Nat}
    (h : time? cs = some ((second, nanos), rest)) : second < 86400 ∧ nanos < 1000000000 := by
  simp only [time?, Option.bind_eq_bind, Option.bind_eq_some_iff, Option.pure_def,
    Option.ite_none_right_eq_some, Option.some.injEq, Prod.mk.injEq, Prod.exists] at h
  obtain ⟨hour, _, -, _, -, minute, _, -, s, n, _, read, bounds, ⟨rfl, rfl⟩, -⟩ := h
  exact ⟨by omega, seconds?_nanos read⟩

theorem signedOffset?_fits {sign offset : Int} {cs rest : List Char}
    (h : signedOffset? sign cs = some (offset, rest)) : OffsetFits offset ∧ offset % 60 = 0 := by
  simp only [signedOffset?, Option.bind_eq_bind, Option.bind_eq_some_iff, Option.pure_def,
    Option.ite_none_right_eq_some, Option.some.injEq, Prod.mk.injEq, Prod.exists] at h
  obtain ⟨hours, after, -, fits, rfl, -⟩ := h
  refine ⟨fits, ?_⟩
  have minutes : (hours * 3600 + (offsetMinutes after).1 * 60 : Nat) =
      60 * (hours * 60 + (offsetMinutes after).1) := by omega
  rw [minutes, Int.natCast_mul, Int.mul_left_comm]
  exact Int.mul_emod_right _ _

theorem offset?_fits {cs rest : List Char} {offset : Int} (h : offset? cs = some (offset, rest)) :
    OffsetFits offset ∧ offset % 60 = 0 := by
  unfold offset? at h
  split at h
  case h_1 | h_2 =>
    cases h
    exact ⟨by decide, rfl⟩
  case h_3 | h_4 => exact signedOffset?_fits h
  case h_5 => cases h

theorem getD_optional {α : Type} {p : α → Prop} (part? : List Char → Option (α × List Char))
    (absent : α) (missing : p absent)
    (present : ∀ {cs rest a}, part? cs = some (a, rest) → p a) (cs : List Char) :
    p ((optional part? cs).1.getD absent) := by
  unfold optional
  split
  next a rest read => exact present read
  · exact missing

theorem offset_ofLocal? {reading : LocalTime} {offset : Int} {t : Timestamp}
    (h : ofLocal? reading offset = some t) : t.offset = offset := by
  simp only [ofLocal?, Option.ite_none_right_eq_some, Option.some.injEq] at h
  rw [← h.2]

/-- What a literal denotes can be shown as one, when the clock can. -/
theorem restorable_of_read? {now : LocalTime} {text : List Char} {t : Timestamp}
    (clock : now.Ordinary) (h : read? now text = some t) : t.Restorable := by
  obtain ⟨validNow, startNow, stopNow, dayNow, nanosNow⟩ := clock
  simp only [read?, Option.ite_none_left_eq_some, Option.ite_none_right_eq_some] at h
  obtain ⟨-, -, read⟩ := h
  have shownAt := offset_ofLocal? read
  have date := getD_optional (p := fun d : Date => d.Valid ∧ 0 ≤ d.year ∧ d.year ≤ 9999)
    date? now.date ⟨validNow, startNow, stopNow⟩ date?_ordinary text
  have time := getD_optional (p := fun time : Nat × Nat => time.1 < 86400 ∧ time.2 < 1000000000)
    time? (now.second, now.nanos) ⟨dayNow, nanosNow⟩ time?_ordinary
  have offset := getD_optional (p := fun offset : Int => OffsetFits offset ∧ offset % 60 = 0)
    offset? 0 (by decide) offset?_fits
  refine ⟨_, ⟨date.1, date.2.1, date.2.2, time _⟩, ?_, ?_, by rw [shownAt]; exact read⟩
  · rw [shownAt]
    exact (offset _).1
  · rw [shownAt]
    exact (offset _).2

section
variable {cs : List Char}

theorem date?_eq_none (undated : '-' ∉ cs) : date? cs = none := by
  unfold date?
  cases read : Text.fixedDigits? 4 cs with
  | none => rfl
  | some year =>
    have later : '-' ∉ year.2 := fun mem => undated ((Text.suffix_of_fixedDigits? read).mem mem)
    simp [Text.after?_eq_none fun first => later (List.mem_of_head? first)]

theorem time?_eq_none (untimed : ':' ∉ cs) : time? cs = none := by
  unfold time?
  cases read : Text.fixedDigits? 2 cs with
  | none => rfl
  | some hour =>
    have later : ':' ∉ hour.2 := fun mem => untimed ((Text.suffix_of_fixedDigits? read).mem mem)
    simp [Text.after?_eq_none fun first => later (List.mem_of_head? first)]

theorem read?_eq_none (now : LocalTime) (undated : '-' ∉ cs) (untimed : ':' ∉ cs) :
    read? now cs = none := by
  simp [read?, optional, date?_eq_none undated, time?_eq_none untimed]

end

end Timestamp.Literal
end SqlFragment
