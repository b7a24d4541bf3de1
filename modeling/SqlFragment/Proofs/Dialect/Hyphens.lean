import SqlFragment.Dialect.Writer
import SqlFragment.Proofs.Text.Hyphens

/-
Hyphens in literals. When a text and the bytes of a value hold none, those of its literal are signs
of numbers, dates and offsets, into whatever type the value is converted and in whatever dialect it
is written. Names between quotes have no hyphens but their own.
-/
namespace SqlFragment
open Text

namespace Value

/-- A text without hyphens, bytes without that of a hyphen, or another value. -/
def Hyphenless : Value → Prop
  | text s => '-' ∉ s.toList
  | binary bytes => 0x2D ∉ bytes
  | _ => True

instance : DecidablePred Hyphenless
  | text s => inferInstanceAs (Decidable ('-' ∉ s.toList))
  | binary bytes => inferInstanceAs (Decidable (0x2D ∉ bytes))
  | null | boolean _ | integer _ | float _ | timestamp _ => isTrue trivial

theorem hyphensLead_display {v : Value} (plain : v.Hyphenless) : HyphensLead v.display.toList := by
  cases v with
  | null => exact hyphensLead_of_not_mem (by decide)
  | boolean b => cases b <;> exact hyphensLead_of_not_mem (by decide)
  | integer n => exact hyphensLead_toString n.toInt
  | float x => exact x.hyphensLead_format .pointed
  | text s => exact hyphensLead_of_not_mem (not_mem_quoted plain (by decide) (by decide))
  | timestamp t =>
    have mark : HyphensLead "#".toList := hyphensLead_of_not_mem (by decide)
    have shown : HyphensLead (t.format Timestamp.literalLayout).toList :=
      t.hyphensLead_format (by decide) (by decide)
    exact (mark.join shown).join mark
  | binary bytes =>
    have opening : HyphensLead "X'".toList := hyphensLead_of_not_mem (by decide)
    have closing : HyphensLead "'".toList := hyphensLead_of_not_mem (by decide)
    exact (opening.join (hyphensLead_of_not_mem (not_mem_hex bytes))).join closing

theorem bytes_of_utf8Text? {bytes : List UInt8} {s : String} (decoded : utf8Text? bytes = some s) :
    bytes = s.toList.flatMap String.utf8EncodeChar := by
  unfold utf8Text? String.fromUTF8? at decoded
  split at decoded
  · cases decoded
    rename_i valid
    have encoded : (String.fromUTF8 ⟨bytes.toArray⟩ valid).toList.utf8Encode = ⟨bytes.toArray⟩ :=
      String.utf8Encode_toList
    have data := congrArg (fun b : ByteArray => b.data.toList) encoded
    simpa [List.utf8Encode] using data.symm
  · cases decoded

theorem not_mem_of_utf8Text? {bytes : List UInt8} {s : String} (decoded : utf8Text? bytes = some s)
    (free : 0x2D ∉ bytes) : '-' ∉ s.toList := by
  intro mem
  rw [bytes_of_utf8Text? decoded] at free
  exact free (List.mem_flatMap.mpr ⟨'-', mem, by decide⟩)

theorem dataType_of_cast {v w : Value} {t : DataType} (typed : t ≠ .undefined)
    (converted : v.cast t = .ok w) : w = .null ∨ w.dataType = t := by
  unfold cast at converted
  cases t <;> cases v <;> grind [dataType, Option.map_eq_some_iff]

theorem hyphensLead_of_cast_string {v : Value} {s : String} (plain : v.Hyphenless)
    (converted : v.cast .string = .ok (.text s)) : HyphensLead s.toList := by
  cases v with
  | null => cases converted
  | boolean b =>
    cases converted
    cases b <;> exact hyphensLead_of_not_mem (by decide)
  | integer n =>
    cases converted
    exact hyphensLead_toString n.toInt
  | float x =>
    cases converted
    exact x.hyphensLead_format .plain
  | text s =>
    cases converted
    exact hyphensLead_of_not_mem plain
  | timestamp t =>
    cases converted
    exact t.hyphensLead_format (by decide) (by decide)
  | binary bytes =>
    unfold cast at converted
    dsimp only at converted
    cases decoded : utf8Text? bytes with
    | none =>
      rw [decoded] at converted
      cases converted
    | some decodedText =>
      rw [decoded] at converted
      cases converted
      exact hyphensLead_of_not_mem (not_mem_of_utf8Text? decoded plain)

theorem hyphensLead_of_cast {v : Value} {t : DataType} {s : String} (plain : v.Hyphenless)
    (converted : v.cast t = .ok (.text s)) : HyphensLead s.toList := by
  by_cases typed : t = .undefined
  · subst typed
    cases converted
    exact hyphensLead_of_not_mem plain
  · rcases dataType_of_cast typed converted with isNull | rfl
    · cases isNull
    · exact hyphensLead_of_cast_string plain converted

end Value

namespace Dialect

theorem hyphensLead_quoteString (d : Dialect) {text : String} (lead : HyphensLead text.toList) :
    HyphensLead (d.quoteString text).toList := by
  have quoted : HyphensLead (Text.quoted '\'' '\'' text).toList :=
    lead.quoted (by decide) (by decide)
  cases d with
  | mysql =>
    refine HyphensLead.quoted ?_ (by decide) (by decide)
    rw [String.toList_ofList]
    exact lead.doubled (by decide) (by decide)
  | mssql => exact HyphensLead.join (hyphensLead_of_not_mem (by decide)) quoted
  | generic | postgresql | sqlite => exact quoted

theorem not_mem_quoteBinary (d : Dialect) (bytes : List UInt8) :
    '-' ∉ (d.quoteBinary bytes).toList := by
  have free := not_mem_hex bytes
  cases d <;> simp [quoteBinary, free]

theorem not_mem_escapePath (d : Dialect) {path : Path}
    (free : ∀ segment ∈ path, '-' ∉ segment.toList) : '-' ∉ (d.escapePath path).toList := by
  refine not_mem_intercalate ?_ (by decide)
  intro name mem
  obtain ⟨segment, inside, rfl⟩ := List.mem_map.mp mem
  refine not_mem_quoted (free segment inside) ?_ ?_
  · cases d <;> decide
  · cases d <;> decide

theorem hyphensLead_timestampText (d : Dialect) (t : Timestamp) :
    HyphensLead (d.timestampText t).toList := by
  unfold timestampText
  split
  · exact Timestamp.hyphensLead_format (by decide) (by decide) _
  · refine Timestamp.hyphensLead_format ?_ ?_ t
    · cases d <;> decide
    · cases d <;> decide

theorem not_mem_of_isParameterName {d : Dialect} {name : String}
    (valid : d.isParameterName name = true) : '-' ∉ name.toList := by
  have start : d.isParameterStart '-' = false := by cases d <;> decide
  have part : d.isParameterPart '-' = false := by cases d <;> decide
  intro mem
  unfold isParameterName at valid
  split at valid
  · rename_i c cs chars
    rw [chars] at mem
    rw [Bool.and_eq_true, List.all_eq_true] at valid
    rcases List.mem_cons.mp mem with rfl | later
    · cases start.symm.trans valid.1
    · cases part.symm.trans (valid.2 _ later)
  · cases valid

theorem not_mem_placeholder (d : Dialect) {name : String} (free : '-' ∉ name.toList)
    (position : PlaceholderPosition) : '-' ∉ (d.placeholder name position).toList := by
  have ordinal : '-' ∉ Nat.toDigits 10 position.ordinal := fun mem =>
    absurd (Integer.isDigit_of_mem_toDigits mem) (by decide)
  cases d <;> simp [placeholder, free, ordinal]

end Dialect

namespace Writer
variable {w : Writer} {v : Value} {t : DataType} {text : String}

theorem literal_eq (w : Writer) (v : Value) (t : DataType) :
    w.literal v t = ((v.cast t).mapError .type).bind w.write := by
  have kept : ∀ v, clamp v none none = .ok v := by
    intro v
    cases v <;> rfl
  unfold literal clampedLiteral
  cases v.cast t with
  | error e => rfl
  | ok v => exact congrArg (fun clamped => clamped >>= w.write) (kept v)

theorem hyphensLead_write (bare : w.escaper = none)
    (lead : ∀ s, v = .text s → HyphensLead s.toList) (written : w.write v = .ok text) :
    HyphensLead text.toList := by
  have strings : ∀ s, w.escapeString s = w.dialect.quoteString s := by simp [escapeString, bare]
  cases v with
  | null =>
    cases written
    exact hyphensLead_of_not_mem (by decide : '-' ∉ "NULL".toList)
  | boolean b =>
    cases written
    refine hyphensLead_of_not_mem ?_
    cases w.dialect <;> cases b <;> decide
  | integer n =>
    cases written
    exact hyphensLead_toString n.toInt
  | float x =>
    rw [write] at written
    split at written
    · cases written
      exact x.hyphensLead_format .exact
    · cases written
  | text s =>
    cases written
    rw [strings]
    exact w.dialect.hyphensLead_quoteString (lead s rfl)
  | timestamp t =>
    cases written
    rw [strings]
    exact w.dialect.hyphensLead_quoteString (w.dialect.hyphensLead_timestampText t)
  | binary bytes =>
    cases written
    rw [escapeBinary, bare]
    exact hyphensLead_of_not_mem (w.dialect.not_mem_quoteBinary bytes)

theorem hyphensLead_literal (bare : w.escaper = none) (plain : v.Hyphenless)
    (written : w.literal v t = .ok text) : HyphensLead text.toList := by
  rw [literal_eq] at written
  cases converted : v.cast t with
  | error e =>
    rw [converted] at written
    cases written
  | ok u =>
    rw [converted] at written
    refine hyphensLead_write bare ?_ written
    rintro s rfl
    exact Value.hyphensLead_of_cast plain converted

end Writer

end SqlFragment
