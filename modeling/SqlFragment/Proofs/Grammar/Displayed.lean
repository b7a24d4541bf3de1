import SqlFragment.Proofs.Grammar.Redisplay
import SqlFragment.Proofs.Time.Restorable

/-
Values read back from their own texts. All of them are restored but floats, which may be read as
integers, and the timestamps that the layout of literals cannot show.
-/
namespace SqlFragment.Grammar
open Rule

section
variable {now : LocalTime} {v : Value} {tail : List Char} {fault : Fault}

theorem parse_of_readsBase (whole : ∀ x, v ≠ .float x) {e : Expr}
    (reads : ReadsBase now v.display.toList e) : (standard now).parse v.display = .ok e :=
  parse_of_reads (opens_value whole) reads.term.expression

/-- A fault between hash signs is not mended by any other rule. -/
theorem level_error_of_timestamp (faults : timestamp now ('#' :: tail) = .error fault)
    (depth : Nat) : ((standard now).level (depth + 1)).expression ('#' :: tail) = .error fault := by
  obtain ⟨notNumber, unprefixed, noCase⟩ :=
    reaches_timestamp ((standard now).level depth).expression tail
  have primary : (standard now).primary ((standard now).level depth).expression ('#' :: tail) =
      .error fault := noCase.orElse_eq.trans (orElse_error faults)
  have term : ((standard now).level (depth + 1)).term ('#' :: tail) = .error fault :=
    (Misses.orElse_eq notNumber.bind).trans
      ((applied_misses now _ unprefixed).orElse_eq.trans (orElse_error (bind_error primary)))
  exact bind_error term

/-- The literal of a timestamp is read as what stands between its hash signs, or not at all. -/
theorem parse_display_timestamp (now : LocalTime) (t : Timestamp) :
    (standard now).parse (Value.timestamp t).display =
      match Timestamp.Literal.read? now (t.format Timestamp.literalLayout).toList with
      | some t' => .ok (.value (.timestamp t'))
      | none => .error (unexpectedAt (Value.timestamp t).display.toList
          (Value.timestamp t).display.toList) := by
  have whole : ∀ x, Value.timestamp t ≠ .float x := by
    rintro x ⟨⟩
  cases read : Timestamp.Literal.read? now (t.format Timestamp.literalLayout).toList with
  | some t' => exact parse_of_readsBase whole fun _ rest _ _ => baseGives_timestamp read rest
  | none =>
    have skipped := skipBlank_of_visible (visible_of_opens (opens_value whole) [])
    have faults := timestamp_apply t now []
    have text := display_timestamp t []
    rw [List.append_nil] at skipped faults text
    rw [read, text] at faults
    simp only [parse_standard, parseChars, skipped]
    rw [text, level_error_of_timestamp faults]

end

/-- The texts of null, booleans, integers, strings and bytes are read as the literals that they are
written for, whatever the strings and bytes hold. -/
theorem parse_display_value (now : LocalTime) (v : Value)
    (kind : v.dataType ∈ [.null, .boolean, .integer, .string, .binary]) :
    (standard now).parse v.display = .ok (.literal v v.dataType) := by
  have whole : ∀ x, v ≠ .float x := by
    rintro x rfl
    simp [Value.dataType] at kind
  have denoted : Denoted v := by
    cases v with
    | timestamp t => simp [Value.dataType] at kind
    | _ => trivial
  exact parse_of_readsBase whole (readsBase_literal whole denoted)

theorem parse_display_forged_literal :
    (Value.text "' or #1:0#\n''").dataType ∈ [.null, .boolean, .integer, .string, .binary] ∧
    (Value.text "' or #1:0#\n''").display = "''' or #1:0#\n'''''" ∧
    (standard ⟨⟨2024, 2, 29⟩, 3600, 0⟩).parse "''' or #1:0#\n'''''" =
      .ok (.literal (.text "' or #1:0#\n''") .string) ∧
    (Value.integer Int64.minValue).dataType ∈ [.null, .boolean, .integer, .string, .binary] ∧
    (standard ⟨⟨2024, 2, 29⟩, 3600, 0⟩).parse "-9223372036854775808" =
      .ok (.literal (.integer Int64.minValue) .integer) := by
  have text := parse_display_value ⟨⟨2024, 2, 29⟩, 3600, 0⟩ (.text "' or #1:0#\n''") (by decide)
  have least := parse_display_value ⟨⟨2024, 2, 29⟩, 3600, 0⟩ (.integer Int64.minValue) (by decide)
  exact ⟨by decide, by decide, text, by decide, least⟩

/-- The literal of a timestamp gives back its instant and its offset exactly if the year that it
shows has four digits, it is no leap second and its offset has whole minutes. -/
theorem parse_display_timestamp_iff (now : LocalTime) (t : Timestamp)
    (instant : Timestamp.InRange t.seconds) (fits : Timestamp.OffsetFits t.offset) :
    (∃ t', (standard now).parse (Value.timestamp t).display = .ok (.value (.timestamp t')) ∧
      t'.sameInstant t = true ∧ t'.offset = t.offset) ↔
    (0 ≤ t.toLocal.date.year ∧ t.toLocal.date.year ≤ 9999) ∧ t.nanos < 1000000000 ∧
      t.offset % 60 = 0 := by
  rw [← Timestamp.restorable_iff instant fits]
  constructor
  · rintro ⟨t', parsed, same, offset⟩
    rw [parse_display_timestamp] at parsed
    cases read : Timestamp.Literal.read? now (t.format Timestamp.literalLayout).toList with
    | none =>
      rw [read] at parsed
      cases parsed
    | some found =>
      rw [read] at parsed
      cases parsed
      have restorable := Timestamp.Literal.restorable_of_read?_format read
      rwa [Timestamp.eq_of_sameInstant same offset] at restorable
  · intro restorable
    refine ⟨t, ?_, by simp [Timestamp.sameInstant], rfl⟩
    rw [parse_display_timestamp, Timestamp.Literal.read?_format restorable now]

/-- An offset of half a minute is shown as a whole one, which leads to another instant. -/
theorem parse_display_rounded_offset :
    (Timestamp.InRange (-62167305540) ∧ Timestamp.OffsetFits 86340 ∧
      (Value.timestamp ⟨-62167305540, 1, 86340⟩).display =
        "#0000-01-01T00:00:00.000000001+23:59#" ∧
      ∃ t', (standard ⟨⟨2024, 2, 29⟩, 3600, 0⟩).parse "#0000-01-01T00:00:00.000000001+23:59#" =
          .ok (.value (.timestamp t')) ∧
        t'.sameInstant ⟨-62167305540, 1, 86340⟩ = true ∧ t'.offset = 86340) ∧
    (Timestamp.InRange 0 ∧ Timestamp.OffsetFits 30 ∧
      (Value.timestamp ⟨0, 0, 30⟩).display = "#1970-01-01T00:00:30+00:01#" ∧
      ¬∃ t', (standard ⟨⟨2024, 2, 29⟩, 3600, 0⟩).parse "#1970-01-01T00:00:30+00:01#" =
          .ok (.value (.timestamp t')) ∧
        t'.sameInstant ⟨0, 0, 30⟩ = true ∧ t'.offset = 30) := by
  have shown : (Value.timestamp ⟨-62167305540, 1, 86340⟩).display =
      "#0000-01-01T00:00:00.000000001+23:59#" := by decide +kernel
  have rounded : (Value.timestamp ⟨0, 0, 30⟩).display = "#1970-01-01T00:00:30+00:01#" := by
    decide +kernel
  have restored := parse_display_timestamp_iff ⟨⟨2024, 2, 29⟩, 3600, 0⟩ ⟨-62167305540, 1, 86340⟩
    (by decide) (by decide)
  have shifted := parse_display_timestamp_iff ⟨⟨2024, 2, 29⟩, 3600, 0⟩ ⟨0, 0, 30⟩
    (by decide) (by decide)
  rw [shown] at restored
  rw [rounded] at shifted
  exact ⟨⟨by decide, by decide, shown, restored.mpr (by decide)⟩,
    by decide, by decide, rounded, mt shifted.mp (by decide)⟩

end SqlFragment.Grammar
