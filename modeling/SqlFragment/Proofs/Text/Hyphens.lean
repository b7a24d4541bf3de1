import SqlFragment.Double.Text
import SqlFragment.Proofs.Dialect.Quoting
import SqlFragment.Proofs.Time.Literal

/-
Hyphens in texts. Two of them side by side open a comment. In the texts of numbers and timestamps
every hyphen stands before a letter or a digit, which survives quoting and putting texts one after
the other. Other texts are kept apart by what is written between them.
-/
namespace SqlFragment

def CommentFree (text : String) : Prop := ¬"--".toList <:+: text.toList

section
variable {s t m : String}

theorem commentFree_of_not_mem (free : '-' ∉ t.toList) : CommentFree t := fun opens =>
  free (opens.subset (by decide))

theorem CommentFree.append (first : CommentFree s) (next : CommentFree t)
    (apart : s.toList.getLast? ≠ some '-' ∨ t.toList.head? ≠ some '-') : CommentFree (s ++ t) := by
  intro opens
  rw [String.toList_append, List.infix_append_iff_ne_nil] at opens
  obtain inside | inside | ⟨front, back, some, more, both, ends, begins⟩ := opens
  · exact first inside
  · exact next inside
  · -- one hyphen ends the first text and the other one begins the second
    obtain ⟨c, front, rfl⟩ := List.exists_cons_of_ne_nil some
    obtain ⟨rfl, rest⟩ := List.cons.inj (both : '-' :: ['-'] = c :: (front ++ back))
    obtain ⟨rfl, rfl⟩ : front = [] ∧ back = ['-'] := by
      rcases List.append_eq_singleton_iff.mp rest.symm with split | ⟨_, rfl⟩
      · exact split
      · exact absurd rfl more
    rcases apart with last | head
    · exact last (List.singleton_suffix_iff_getLast?_eq_some.mp ends)
    · exact head (List.singleton_prefix_iff_head?_eq_some.mp begins)

theorem CommentFree.after (clean : CommentFree t) (free : '-' ∉ m.toList) : CommentFree (m ++ t) :=
  (commentFree_of_not_mem free).append clean
    (.inl fun last => free (List.mem_of_getLast? last))

theorem CommentFree.before (clean : CommentFree s) (free : '-' ∉ m.toList) : CommentFree (s ++ m) :=
  clean.append (commentFree_of_not_mem free) (.inr fun head => free (List.mem_of_head? head))

theorem CommentFree.divided (first : CommentFree s) (next : CommentFree t)
    (free : '-' ∉ m.toList) (some : m.toList ≠ []) : CommentFree (s ++ m ++ t) := by
  refine (first.before free).append next (.inl fun last => ?_)
  rw [String.toList_append, List.getLast?_append, List.getLast?_eq_some_getLast some,
    Option.some_or, ← List.getLast?_eq_some_getLast some] at last
  exact free (List.mem_of_getLast? last)

theorem commentFree_intercalate {texts : List String} (each : ∀ text ∈ texts, CommentFree text)
    (free : '-' ∉ m.toList) (some : m.toList ≠ []) : CommentFree (m.intercalate texts) := by
  induction texts with
  | nil => exact commentFree_of_not_mem (by simp)
  | cons text texts ih =>
    have first := each text List.mem_cons_self
    have rest := ih fun other mem => each other (List.mem_cons_of_mem text mem)
    cases texts with
    | nil => simpa using first
    | cons next texts =>
      rw [String.intercalate_cons_cons]
      exact first.divided rest free some

end

namespace Text

/-- Every hyphen stands before a letter or a digit. -/
def HyphensLead (cs : List Char) : Prop :=
  ∀ front rest, cs = front ++ '-' :: rest → rest.head?.any Char.isAlphanum = true

section
variable {c mark : Char} {cs ds : List Char}

theorem hyphensLead_of_not_mem (free : '-' ∉ cs) : HyphensLead cs := by
  rintro front rest rfl
  exact absurd (by simp) free

theorem hyphensLead_cons :
    HyphensLead (c :: cs) ↔ (c = '-' → cs.head?.any Char.isAlphanum = true) ∧ HyphensLead cs := by
  constructor
  · intro lead
    refine ⟨?_, fun front rest split => lead (c :: front) rest (congrArg (c :: ·) split)⟩
    rintro rfl
    exact lead [] cs rfl
  · rintro ⟨here, later⟩ front rest split
    cases front with
    | nil =>
      obtain ⟨hyphen, rfl⟩ := List.cons.inj split
      exact here hyphen
    | cons d front => exact later front rest (List.cons.inj split).2

theorem HyphensLead.commentFree {text : String} (lead : HyphensLead text.toList) :
    CommentFree text := by
  rintro ⟨front, rest, split⟩
  have second : '-'.isAlphanum = true := lead front ('-' :: rest) (by simpa using split.symm)
  exact absurd second (by decide)

theorem hyphensLead_of_isDigit (digits : ∀ d ∈ cs, d.isDigit = true) : HyphensLead cs :=
  hyphensLead_of_not_mem fun mem => absurd (digits _ mem) (by decide)

theorem HyphensLead.append (first : HyphensLead cs) (next : HyphensLead ds) :
    HyphensLead (cs ++ ds) := by
  induction cs with
  | nil => exact next
  | cons c cs ih =>
    obtain ⟨here, later⟩ := hyphensLead_cons.mp first
    refine hyphensLead_cons.mpr ⟨fun hyphen => ?_, ih later⟩
    have second := here hyphen
    cases cs with
    | nil => cases second
    | cons d cs => exact second

theorem HyphensLead.cons_of_ne (lead : HyphensLead cs) (other : c ≠ '-') : HyphensLead (c :: cs) :=
  hyphensLead_cons.mpr ⟨fun hyphen => absurd hyphen other, lead⟩

theorem hyphensLead_cons_digits (some : ds ≠ []) (digits : ∀ d ∈ ds, d.isDigit = true) :
    HyphensLead (c :: ds) := by
  obtain ⟨d, rest, rfl⟩ := List.exists_cons_of_ne_nil some
  refine hyphensLead_cons.mpr ⟨fun _ => ?_, hyphensLead_of_isDigit digits⟩
  simp [Char.isAlphanum, digits d List.mem_cons_self]

theorem HyphensLead.doubled (lead : HyphensLead cs) (other : mark ≠ '-')
    (plain : mark.isAlphanum = false) : HyphensLead (doubled mark cs) := by
  induction cs with
  | nil => exact lead
  | cons c cs ih =>
    obtain ⟨here, later⟩ := hyphensLead_cons.mp lead
    have rest := ih later
    by_cases same : c = mark
    · subst same
      rw [doubled_cons_same]
      exact rest.cons_of_ne other |>.cons_of_ne other
    · rw [doubled_cons_other same]
      refine hyphensLead_cons.mpr ⟨fun hyphen => ?_, rest⟩
      have second := here hyphen
      cases cs with
      | nil => cases second
      | cons d cs =>
        -- what stands behind the hyphen is not the mark, so it is written once
        have letter : d.isAlphanum = true := second
        have unmarked : d ≠ mark := by
          rintro rfl
          cases letter.symm.trans plain
        rw [doubled_cons_other unmarked]
        exact letter

theorem HyphensLead.quoted {text : String} (lead : HyphensLead text.toList)
    (other : mark ≠ '-') (plain : mark.isAlphanum = false) :
    HyphensLead (quoted mark mark text).toList := by
  rw [quoted_toList]
  refine ((lead.doubled other plain).append ?_).cons_of_ne other
  exact hyphensLead_of_not_mem (by simpa using other.symm)

end

theorem not_mem_hex (bytes : List UInt8) : '-' ∉ (hex bytes).toList := fun mem =>
  absurd (isSome_hexValue?_of_mem_hex mem) (by decide)

theorem not_mem_quoted {opening close : Char} {text : String} (free : '-' ∉ text.toList)
    (opens : opening ≠ '-') (closes : close ≠ '-') : '-' ∉ (quoted opening close text).toList := by
  rw [quoted_toList]
  simp only [doubled, List.mem_cons, List.mem_append, List.mem_flatMap, List.not_mem_nil, or_false,
    not_or]
  refine ⟨opens.symm, ?_, closes.symm⟩
  rintro ⟨c, mem, inside⟩
  split at inside <;> simp at inside <;> exact free (inside ▸ mem)

theorem not_mem_intercalate {separator : String} {texts : List String}
    (free : ∀ text ∈ texts, '-' ∉ text.toList) (apart : '-' ∉ separator.toList) :
    '-' ∉ (separator.intercalate texts).toList := by
  induction texts with
  | nil => simp
  | cons text texts ih =>
    rw [toList_intercalate_cons]
    simp only [List.mem_append, List.mem_flatMap, not_or, not_exists, not_and]
    refine ⟨free text List.mem_cons_self, fun other mem => ⟨apart, ?_⟩⟩
    exact free other (List.mem_cons_of_mem text mem)

theorem padded_ne_nil (width n : Nat) : (padded width n).toList ≠ [] := by
  obtain ⟨c, cs, front, _⟩ := padded_cons width n
  rw [front]
  exact List.cons_ne_nil c cs

theorem hyphensLead_padded (width n : Nat) : HyphensLead (padded width n).toList :=
  hyphensLead_of_isDigit fun _ => isDigit_of_mem_padded

theorem hyphensLead_mark_padded {mark : String} {c : Char} (single : mark.toList = [c])
    (width n : Nat) : HyphensLead (mark ++ padded width n).toList := by
  rw [String.toList_append, single]
  exact hyphensLead_cons_digits (padded_ne_nil width n) fun _ => isDigit_of_mem_padded

theorem HyphensLead.join {s t : String} (first : HyphensLead s.toList)
    (next : HyphensLead t.toList) : HyphensLead (s ++ t).toList := by
  rw [String.toList_append]
  exact first.append next

end Text

open Text

theorem hyphensLead_toString (n : Int) : HyphensLead (toString n).toList := by
  by_cases nonneg : 0 ≤ n
  · rw [Integer.toList_toString_of_nonneg nonneg]
    exact hyphensLead_of_isDigit fun _ => Integer.isDigit_of_mem_toDigits
  · rw [Integer.toList_toString_of_neg (by omega)]
    exact hyphensLead_cons_digits Nat.toDigits_ne_nil fun _ => Integer.isDigit_of_mem_toDigits

namespace Double

def TakesSign (cs : List Char) : Prop := cs.head?.any Char.isAlphanum = true ∧ HyphensLead cs

theorem TakesSign.signed {cs : List Char} (takes : TakesSign cs) (negative : Bool) :
    HyphensLead (if negative then '-' :: cs else cs) := by
  cases negative with
  | false => exact takes.2
  | true => exact hyphensLead_cons.mpr ⟨fun _ => takes.1, takes.2⟩

theorem takesSign_cons {c : Char} {cs : List Char} (letter : c.isAlphanum = true)
    (lead : HyphensLead cs) : TakesSign (c :: cs) := by
  refine ⟨letter, lead.cons_of_ne ?_⟩
  rintro rfl
  exact absurd letter (by decide)

section
variable (layout : Layout) {digit : Char} {digits : List Char}

theorem takesSign_writePositional (letter : digit.isAlphanum = true) (free : '-' ∉ digits)
    (point : Int) : TakesSign (layout.writePositional (digit :: digits) point) := by
  unfold Layout.writePositional
  split
  · refine takesSign_cons (by decide) (hyphensLead_of_not_mem ?_)
    have other : digit ≠ '-' := by rintro rfl; exact absurd letter (by decide)
    simp [free, other.symm]
  · split
    · refine takesSign_cons letter (hyphensLead_of_not_mem ?_)
      cases layout.wholePoint <;> simp [free]
    · obtain ⟨n, positive⟩ : ∃ n, point.toNat = n + 1 := ⟨point.toNat - 1, by omega⟩
      rw [positive]
      refine takesSign_cons letter (hyphensLead_of_not_mem ?_)
      have before : '-' ∉ digits.take n := fun mem => free (List.mem_of_mem_take mem)
      have after : '-' ∉ digits.drop n := fun mem => free (List.mem_of_mem_drop mem)
      simp [before, after]

theorem takesSign_writeExponent (letter : digit.isAlphanum = true) (free : '-' ∉ digits)
    (point : Int) : TakesSign (layout.writeExponent (digit :: digits) point) := by
  have fraction : '-' ∉ (if digits.isEmpty then (if layout.exponentPoint then ['.', '0'] else [])
      else '.' :: digits) := by
    split
    · split <;> decide
    · simp [free]
  have exponent : HyphensLead ('e' :: (toString (point - 1)).toList) :=
    (hyphensLead_toString (point - 1)).cons_of_ne (by decide)
  exact takesSign_cons letter ((hyphensLead_of_not_mem fraction).append exponent)

theorem takesSign_write (letter : digit.isAlphanum = true) (free : '-' ∉ digits) (point : Int) :
    TakesSign (layout.write (digit :: digits) point) := by
  unfold Layout.write
  split
  · exact takesSign_writePositional layout letter free point
  · exact takesSign_writeExponent layout letter free point

theorem hyphensLead_format (x : Double) : HyphensLead (x.format layout).toList := by
  cases x with
  | nan => exact hyphensLead_of_not_mem (by decide : '-' ∉ "NaN".toList)
  | infinity negative =>
    cases negative with
    | false => exact hyphensLead_of_not_mem (by decide : '-' ∉ "inf".toList)
    | true =>
      have text : "-inf".toList = '-' :: "inf".toList := by decide
      have named : HyphensLead "inf".toList := hyphensLead_of_not_mem (by decide)
      rw [format, if_pos rfl, text]
      exact hyphensLead_cons.mpr ⟨fun _ => rfl, named⟩
  | finite negative mantissa exponent normal =>
    simp only [format, String.toList_ofList]
    apply TakesSign.signed
    split
    · exact takesSign_writePositional layout (by decide) (by decide) 1
    · obtain ⟨digit, digits, front⟩ := List.exists_cons_of_ne_nil
        (@Nat.toDigits_ne_nil (shortest mantissa exponent).digits 10)
      have all : ∀ d ∈ digit :: digits, d.isDigit = true := by
        rw [← front]
        exact fun _ => Integer.isDigit_of_mem_toDigits
      rw [front]
      refine takesSign_write layout ?_ ?_ _
      · simp [Char.isAlphanum, all digit List.mem_cons_self]
      · exact fun mem => absurd (all _ (List.mem_cons_of_mem _ mem)) (by decide)

end

end Double

section
variable (year offset : Int) (nanos : Nat)

theorem hyphensLead_yearText : HyphensLead (yearText year).toList := by
  unfold yearText
  split
  · exact hyphensLead_padded 4 _
  · split
    · exact hyphensLead_mark_padded rfl 4 _
    · exact hyphensLead_mark_padded rfl 4 _

theorem hyphensLead_date (d : Date) : HyphensLead d.text.toList := by
  have parts : d.text = yearText d.year ++ ("-" ++ padded 2 d.month) ++ ("-" ++ padded 2 d.day) := by
    simp only [Date.text, String.append_assoc]
  rw [parts]
  exact ((hyphensLead_yearText d.year).join (hyphensLead_mark_padded rfl 2 d.month)).join
    (hyphensLead_mark_padded rfl 2 d.day)

theorem hyphensLead_fractionText : HyphensLead (fractionText nanos).toList := by
  simp only [fractionText]
  split
  · exact hyphensLead_of_not_mem (by decide)
  · split
    · exact hyphensLead_mark_padded rfl 3 _
    · split
      · exact hyphensLead_mark_padded rfl 6 _
      · exact hyphensLead_mark_padded rfl 9 _

theorem hyphensLead_clockText (t : LocalTime) : HyphensLead t.clockText.toList := by
  have colon : HyphensLead ":".toList := hyphensLead_of_not_mem (by decide)
  have hours := (hyphensLead_padded 2 (t.second / 3600)).join colon
  have minutes := (hours.join (hyphensLead_padded 2 (t.second / 60 % 60))).join colon
  have seconds := minutes.join (hyphensLead_padded 2 (t.second % 60 + t.nanos / 1000000000))
  exact seconds.join (hyphensLead_fractionText t.nanos)

theorem hyphensLead_offsetText : HyphensLead (offsetText offset).toList := by
  have colon : HyphensLead ":".toList := hyphensLead_of_not_mem (by decide)
  simp only [offsetText]
  refine (HyphensLead.join ?_ colon).join (hyphensLead_padded 2 _)
  split
  · exact hyphensLead_mark_padded rfl 2 _
  · exact hyphensLead_mark_padded rfl 2 _

end

theorem Timestamp.hyphensLead_format {layout : TimestampLayout}
    (divider : '-' ∉ layout.divider.toList) (gap : ∀ gap ∈ layout.beforeOffset, '-' ∉ gap.toList)
    (t : Timestamp) : HyphensLead (t.format layout).toList := by
  have front := ((hyphensLead_date t.toLocal.date).join (hyphensLead_of_not_mem divider)).join
    (hyphensLead_clockText t.toLocal)
  rw [Timestamp.format, TimestampLayout.write]
  refine front.join ?_
  cases shown : layout.beforeOffset with
  | none => exact hyphensLead_of_not_mem (by decide : '-' ∉ "".toList)
  | some text => exact (hyphensLead_of_not_mem (gap text shown)).join (hyphensLead_offsetText t.offset)

end SqlFragment
