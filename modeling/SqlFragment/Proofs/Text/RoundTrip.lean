import SqlFragment.Integer
import SqlFragment.Path
import SqlFragment.Text.Blank

/-
Texts that read back as what they were written for: dotted paths, whole numbers and bytes. A digit
is taken for nothing else, be it a letter, a blank or a sign.
-/
namespace SqlFragment.Path

section
variable {mark : Char}

theorem splitChars_of_not_mem {cs : List Char} (free : mark ∉ cs) : splitChars mark cs = [cs] := by
  induction cs with
  | nil => rfl
  | cons c cs ih =>
    simp only [List.mem_cons, not_or] at free
    obtain ⟨here, later⟩ := free
    simp only [splitChars, Ne.symm here, ↓reduceIte, ih later]

theorem splitChars_append {front : List Char} (free : mark ∉ front) (rest : List Char) :
    splitChars mark (front ++ mark :: rest) = front :: splitChars mark rest := by
  induction front with
  | nil => simp [splitChars]
  | cons c front ih =>
    simp only [List.mem_cons, not_or] at free
    obtain ⟨here, later⟩ := free
    simp only [List.cons_append, splitChars, Ne.symm here, ↓reduceIte, ih later]

theorem splitChars_intercalate {pieces : List (List Char)} (some : pieces ≠ [])
    (free : ∀ piece ∈ pieces, mark ∉ piece) :
    splitChars mark ([mark].intercalate pieces) = pieces := by
  induction pieces with
  | nil => exact absurd rfl some
  | cons piece pieces ih =>
    have first := free piece (by simp)
    cases pieces with
    | nil => simpa using splitChars_of_not_mem first
    | cons next pieces =>
      have later := ih (by simp) fun p hp => free p (List.mem_cons_of_mem piece hp)
      rw [List.intercalate_cons_cons, List.append_assoc, List.singleton_append,
        splitChars_append first, later]

end

theorem display_toList (path : Path) :
    path.display.toList = ['.'].intercalate (path.map String.toList) := by
  rw [display, String.toList_intercalate]
  rfl

/-- A path of segments without dots is read back, unless its text is empty. -/
theorem parse_display {path : Path} (some : path ≠ []) (visible : path ≠ [""])
    (free : ∀ segment ∈ path, '.' ∉ segment.toList) : parse path.display = path := by
  have pieces : splitChars '.' path.display.toList = path.map String.toList := by
    rw [display_toList]
    refine splitChars_intercalate (by simpa using some) ?_
    intro piece mem
    obtain ⟨segment, member, rfl⟩ := List.mem_map.mp mem
    exact free segment member
  have written : path.display.isEmpty = false := by
    cases empty : path.display.isEmpty with
    | false => rfl
    | true =>
      have text : path.display = "" := by simpa using empty
      rw [text] at pieces
      cases path with
      | nil => exact absurd rfl some
      | cons segment path =>
        obtain ⟨first, rest⟩ := List.cons.inj pieces
        have blank : segment = "" := String.toList_inj.mp first.symm
        have last : path = [] := List.map_eq_nil_iff.mp rest.symm
        exact absurd (by rw [blank, last]) visible
  rw [parse, written, pieces, List.map_map]
  simp [Function.comp_def]

/-- No segment of the path holds a dot. -/
def Plain (path : Path) : Prop := ∀ segment ∈ path, '.' ∉ segment.toList

instance (path : Path) : Decidable path.Plain :=
  inferInstanceAs (Decidable (∀ segment ∈ path, '.' ∉ segment.toList))

theorem not_mem_of_mem_splitChars {mark : Char} {cs piece : List Char}
    (mem : piece ∈ splitChars mark cs) : mark ∉ piece := by
  induction cs generalizing piece with
  | nil =>
    rw [splitChars, List.mem_singleton] at mem
    simp [mem]
  | cons c cs ih =>
    rw [splitChars] at mem
    split at mem
    · rcases List.mem_cons.mp mem with rfl | later
      · exact List.not_mem_nil
      · exact ih later
    · rename_i other
      split at mem
      · rw [List.mem_singleton] at mem
        simp [mem, Ne.symm other]
      · rename_i first pieces split
        rcases List.mem_cons.mp mem with rfl | later
        · have free := ih (split ▸ List.mem_cons_self)
          simp [Ne.symm other, free]
        · exact ih (split ▸ List.mem_cons_of_mem first later)

theorem plain_parse (text : String) : (parse text).Plain := by
  intro segment mem
  rw [parse] at mem
  split at mem
  · exact absurd mem List.not_mem_nil
  · obtain ⟨piece, member, rfl⟩ := List.mem_map.mp mem
    rw [String.toList_ofList]
    exact not_mem_of_mem_splitChars member

theorem parse_of_not_mem {text : String} (free : '.' ∉ text.toList) :
    parse text = if text.isEmpty then [] else [text] := by
  rw [parse, splitChars_of_not_mem free, List.map_singleton, String.ofList_toList]

theorem intercalate_splitChars (mark : Char) (cs : List Char) :
    splitChars mark cs ≠ [] ∧ [mark].intercalate (splitChars mark cs) = cs := by
  induction cs with
  | nil => simp [splitChars]
  | cons c cs ih =>
    obtain ⟨some, joined⟩ := ih
    obtain ⟨piece, pieces, split⟩ := List.exists_cons_of_ne_nil some
    rw [split] at joined
    rw [splitChars]
    by_cases here : c = mark
    · rw [if_pos here, split, List.intercalate_cons_cons, joined, here]
      exact ⟨List.cons_ne_nil _ _, rfl⟩
    · rw [if_neg here, split]
      refine ⟨List.cons_ne_nil _ _, ?_⟩
      cases pieces with
      | nil => simpa using joined
      | cons next pieces =>
        rw [List.intercalate_cons_cons] at joined ⊢
        exact congrArg (c :: ·) joined

theorem display_parse (text : String) : (parse text).display = text := by
  rw [← String.toList_inj, display_toList, parse]
  split
  · rename_i empty
    rw [String.isEmpty_iff.mp empty]
    rfl
  · simpa [Function.comp_def] using (intercalate_splitChars '.' text.toList).2

theorem eq_of_parse {text name : String} (parsed : parse text = [name]) : name = text := by
  have joined := display_parse text
  rw [parsed] at joined
  exact joined

end SqlFragment.Path

namespace SqlFragment.Text

theorem isAlpha_iff (c : Char) : c.isAlpha = true ↔
    (65 ≤ c.toNat ∧ c.toNat ≤ 90) ∨ (97 ≤ c.toNat ∧ c.toNat ≤ 122) := by
  delta Char.isAlpha Char.isUpper Char.isLower
  simp only [Bool.or_eq_true, Bool.and_eq_true, decide_eq_true_eq, UInt32.le_iff_toNat_le,
    ge_iff_le]
  exact Iff.rfl

theorem toLower_of_not_alpha {c : Char} (other : c.isAlpha = false) : c.toLower = c := by
  unfold Char.toLower
  split
  · rename_i upper
    have low : 65 ≤ c.toNat := by simpa [UInt32.le_iff_toNat_le] using upper.1
    have high : c.toNat ≤ 90 := by simpa [UInt32.le_iff_toNat_le] using upper.2
    rw [(isAlpha_iff c).2 (.inl ⟨low, high⟩)] at other
    cases other
  · rfl

theorem isAlpha_of_isDigit {c : Char} (digit : c.isDigit = true) : c.isAlpha = false := by
  have codes : '0'.toNat = 48 ∧ '9'.toNat = 57 := ⟨rfl, rfl⟩
  have bounds := Char.isDigit_iff_toNat.1 digit
  cases letter : c.isAlpha with
  | false => rfl
  | true =>
    have code := (isAlpha_iff c).1 letter
    omega

theorem toLower_of_isDigit {c : Char} (digit : c.isDigit = true) : c.toLower = c :=
  toLower_of_not_alpha (isAlpha_of_isDigit digit)

theorem isBlank_of_isDigit {c : Char} (digit : c.isDigit = true) : isBlank c = false := by
  have bounds := Char.isDigit_iff_toNat.1 digit
  have codes : '0'.toNat = 48 ∧ '9'.toNat = 57 := ⟨rfl, rfl⟩
  simp only [isBlank, Bool.or_eq_false_iff, Bool.and_eq_false_iff, decide_eq_false_iff_not,
    beq_eq_false_iff_ne]
  omega

theorem takeWhile_append_ends {rest : List Char} {p : Char → Bool} {front : List Char}
    (all : ∀ d ∈ front, p d = true) (stop : ∀ d, rest.head? = some d → p d = false) :
    (front ++ rest).takeWhile p = front ∧ (front ++ rest).dropWhile p = rest := by
  rw [List.takeWhile_append_of_pos all, List.dropWhile_append_of_pos all]
  cases rest with
  | nil => simp
  | cons d rest => simp [stop d rfl]

theorem skipBlank_of_all {cs : List Char} (all : ∀ c ∈ cs, isBlank c = false) :
    skipBlank cs = cs := by
  cases cs with
  | nil => rfl
  | cons c cs => simp [skipBlank, all c List.mem_cons_self]

end SqlFragment.Text

namespace SqlFragment.Double

theorem takeSign_of_digit {cs : List Char} (first : ∀ d, cs.head? = some d → d.isDigit = true) :
    takeSign cs = (false, cs) := by
  cases cs with
  | nil => rfl
  | cons d cs =>
    have digit := first d rfl
    refine takeSign.eq_3 (d :: cs) ?_ ?_ <;>
    · rintro tail ⟨rfl, -⟩
      exact absurd digit (by decide)

end SqlFragment.Double

namespace SqlFragment.Integer

theorem toList_toString_of_nonneg {n : Int} (nonneg : 0 ≤ n) :
    (toString n).toList = Nat.toDigits 10 n.toNat := by
  rw [Int.toString_eq_repr, Int.repr_eq_if, if_pos nonneg, Nat.toList_repr]

theorem toList_toString_of_neg {n : Int} (negative : n < 0) :
    (toString n).toList = '-' :: Nat.toDigits 10 (-n).toNat := by
  rw [Int.toString_eq_repr, Int.repr_eq_if, if_neg (by omega), String.toList_append,
    Nat.toList_repr]
  rfl

theorem isDigit_of_mem_toDigits {n : Nat} {c : Char} (mem : c ∈ Nat.toDigits 10 n) :
    c.isDigit = true :=
  Nat.isDigit_of_mem_toDigits (by decide) (by decide) mem

theorem toString_cons (n : Int) :
    ∃ c tail, (toString n).toList = c :: tail ∧ (c = '-' ∨ c.isDigit = true) := by
  by_cases nonneg : 0 ≤ n
  · obtain ⟨c, tail, front⟩ := List.exists_cons_of_ne_nil (@Nat.toDigits_ne_nil n.toNat 10)
    have digit : c.isDigit = true := isDigit_of_mem_toDigits (by rw [front]; exact List.mem_cons_self)
    exact ⟨c, tail, (toList_toString_of_nonneg nonneg).trans front, .inr digit⟩
  · exact ⟨'-', _, toList_toString_of_neg (by omega), .inl rfl⟩

theorem digits?_toDigits (n : Nat) : digits? (Nat.toDigits 10 n) = some (n : Int) := by
  have digits : (Nat.toDigits 10 n).all Char.isDigit = true :=
    List.all_eq_true.mpr fun c hc => isDigit_of_mem_toDigits hc
  have unsigned : Double.takeSign (Nat.toDigits 10 n) = (false, Nat.toDigits 10 n) :=
    Double.takeSign_of_digit fun _ first => isDigit_of_mem_toDigits (List.mem_of_head? first)
  simp only [digits?, unsigned, digits, Bool.and_true, Bool.not_eq_true', List.isEmpty_eq_false_iff,
    Nat.toDigits_ne_nil, ne_eq, not_false_eq_true, ↓reduceIte, Bool.false_eq_true,
    Text.digitsValue_toDigits]

theorem ofInt?_toInt (n : Int64) : ofInt? n.toInt = some n := by
  have fits : least ≤ n.toInt ∧ n.toInt ≤ greatest := ⟨n.minValue_le_toInt, n.toInt_le⟩
  rw [ofInt?, if_pos fits, Int64.ofInt_toInt]

theorem parse?_toString (n : Int64) : parse? (toString n.toInt).toList = some n := by
  by_cases nonneg : 0 ≤ n.toInt
  · rw [toList_toString_of_nonneg nonneg, parse?, digits?_toDigits, Int.toNat_of_nonneg nonneg]
    exact ofInt?_toInt n
  · have negative : n.toInt < 0 := by omega
    have digits : digits? ('-' :: Nat.toDigits 10 (-n.toInt).toNat) = some n.toInt := by
      have all : (Nat.toDigits 10 (-n.toInt).toNat).all Char.isDigit = true :=
        List.all_eq_true.mpr fun c hc => isDigit_of_mem_toDigits hc
      have value : -((-n.toInt).toNat : Int) = n.toInt := by omega
      simp only [digits?, Double.takeSign, all, Bool.and_true, Bool.not_eq_true',
        List.isEmpty_eq_false_iff, Nat.toDigits_ne_nil, ne_eq, not_false_eq_true, ↓reduceIte,
        Text.digitsValue_toDigits, value]
    rw [toList_toString_of_neg negative, parse?, digits]
    exact ofInt?_toInt n

end SqlFragment.Integer

namespace SqlFragment.Text

theorem toList_intercalate_cons (separator first : String) (more : List String) :
    (separator.intercalate (first :: more)).toList =
      first.toList ++ more.flatMap fun s => separator.toList ++ s.toList := by
  induction more generalizing first with
  | nil => simp
  | cons next more ih =>
    rw [String.intercalate_cons_cons, String.toList_append, String.toList_append, ih next]
    simp

theorem hexValue?_hexDigit {n : Nat} (small : n < 16) : hexValue? (hexDigit n) = some n := by
  have digits : ∀ i : Fin 16, hexValue? (hexDigit i) = some i.val := by decide
  exact digits ⟨n, small⟩

theorem unhex?_hex (bytes : List UInt8) : unhex? (hex bytes).toList = some bytes := by
  rw [hex, String.toList_ofList]
  induction bytes with
  | nil => rfl
  | cons b bytes ih =>
    have size := b.toNat_lt
    have high := hexValue?_hexDigit (show b.toNat / 16 < 16 by omega)
    have low := hexValue?_hexDigit (show b.toNat % 16 < 16 by omega)
    have same : 16 * (b.toNat / 16) + b.toNat % 16 = b.toNat := Nat.div_add_mod _ _
    simp only [List.flatMap_cons, List.cons_append, List.nil_append, unhex?, high, low, ih,
      Option.bind_eq_bind, Option.bind_some, same, UInt8.ofNat_toNat]
    rfl

theorem isSome_hexValue?_of_mem_hex {bytes : List UInt8} {c : Char} (mem : c ∈ (hex bytes).toList) :
    (hexValue? c).isSome = true := by
  rw [hex, String.toList_ofList] at mem
  obtain ⟨b, -, digit⟩ := List.mem_flatMap.mp mem
  have size := b.toNat_lt
  simp only [List.mem_cons, List.not_mem_nil, or_false] at digit
  obtain rfl | rfl := digit
  · rw [hexValue?_hexDigit (by omega)]
    rfl
  · rw [hexValue?_hexDigit (by omega)]
    rfl

end SqlFragment.Text
