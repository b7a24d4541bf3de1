import SqlFragment.Integer
import SqlFragment.Proofs.Text.RoundTrip

/-
The text of a number in its parts: a sign, digits, digits behind a point, and an exponent. What the
readers take off the front of a text one after the other is read as one number.
-/
namespace SqlFragment.Double

theorem takeSign_split (cs : List Char) :
    ∃ sign, cs = sign ++ (takeSign cs).2 ∧
      ∀ tail : List Char, (∀ d, tail.head? = some d → d.isDigit = true) →
        takeSign (sign ++ tail) = ((takeSign cs).1, tail) := by
  fun_cases takeSign cs with
  | case1 rest => exact ⟨['-'], rfl, fun tail _ => rfl⟩
  | case2 rest => exact ⟨['+'], rfl, fun tail _ => rfl⟩
  | case3 => exact ⟨[], rfl, fun tail digit => takeSign_of_digit digit⟩

theorem takeFraction_split (cs : List Char) :
    ∃ fraction, cs = fraction ++ (takeFraction cs).2 ∧
      match (takeFraction cs).1 with
      | some ds => fraction = '.' :: ds ∧ ∀ d ∈ ds, d.isDigit = true
      | none => fraction = [] := by
  fun_cases takeFraction cs with
  | case1 rest ds empty => exact ⟨[], rfl, rfl⟩
  | case2 rest ds filled =>
    refine ⟨'.' :: ds, ?_, rfl, fun d mem => List.all_eq_true.mp List.all_takeWhile d mem⟩
    exact congrArg ('.' :: ·) List.takeWhile_append_dropWhile.symm
  | case3 => exact ⟨[], rfl, rfl⟩

theorem takeExponent_split (cs : List Char) :
    ∃ exponent, cs = exponent ++ (takeExponent cs).2 ∧
      readExponent? exponent = some ((takeExponent cs).1.getD 0) ∧
      ((takeExponent cs).1 = none → exponent = []) := by
  fun_cases takeExponent cs with
  | case1 c rest letter negative body signed ds empty => exact ⟨[], rfl, rfl, fun _ => rfl⟩
  | case2 c rest letter negative body signed ds n filled =>
    obtain ⟨sign, parts, reads⟩ := takeSign_split rest
    rw [signed] at parts reads
    have digits : ∀ d ∈ ds, d.isDigit = true := fun d mem =>
      List.all_eq_true.mp List.all_takeWhile d mem
    have read := reads ds fun d first => digits d (List.mem_of_head? first)
    refine ⟨c :: (sign ++ ds), ?_, ?_, nofun⟩
    · rw [parts, List.cons_append, List.append_assoc, List.takeWhile_append_dropWhile]
    · have whole : (!ds.isEmpty && ds.all Char.isDigit) = true := by
        rw [List.all_eq_true.mpr digits, Bool.and_true, Bool.not_eq_true', ← Bool.not_eq_true]
        exact filled
      simp only [readExponent?, letter, ↓reduceIte, read, whole]
      rfl
  | case3 c rest other => exact ⟨[], rfl, rfl, fun _ => rfl⟩
  | case4 => exact ⟨[], rfl, rfl, fun _ => rfl⟩

theorem letter_of_readExponent? {cs : List Char} {n : Int} (read : readExponent? cs = some n)
    {c : Char} (first : cs.head? = some c) : c = 'e' ∨ c = 'E' := by
  obtain ⟨rest, rfl⟩ := List.head?_eq_some_iff.mp first
  by_cases letter : c = 'e' ∨ c = 'E'
  · exact letter
  · simp [readExponent?, letter] at read

theorem not_digit_of_readExponent? {cs : List Char} {n : Int} (read : readExponent? cs = some n) :
    ∀ c, cs.head? = some c → c.isDigit = false := by
  intro c first
  obtain rfl | rfl := letter_of_readExponent? read first <;> decide

/-- Digits behind an optional sign, with an optional fraction and an optional exponent. A text that
begins with a digit is none of the names of numbers. -/
theorem parse?_of_parts {sign whole fraction ds exponent : List Char} {negative : Bool} {n : Int}
    (signed : takeSign (sign ++ (whole ++ (fraction ++ exponent))) =
      (negative, whole ++ (fraction ++ exponent)))
    (filled : whole ≠ []) (digits : ∀ c ∈ whole, c.isDigit = true)
    (pointed : fraction = [] ∧ ds = [] ∨ fraction = '.' :: ds)
    (decimals : ∀ c ∈ ds, c.isDigit = true) (ends : readExponent? exponent = some n) :
    parse? (String.ofList (sign ++ (whole ++ (fraction ++ exponent)))) =
      some (ofDecimal negative (Text.digitsValue (whole ++ ds)) (n - ds.length)) := by
  have word {s : String} (letter : s.toList.head?.any Char.isDigit = false) :
      String.ofList ((whole ++ (fraction ++ exponent)).map Char.toLower) ≠ s := by
    rintro rfl
    obtain ⟨c, cs, rfl⟩ := List.exists_cons_of_ne_nil filled
    have digit := digits c List.mem_cons_self
    rw [String.toList_ofList] at letter
    have other : c.toLower.isDigit = false := letter
    rw [Text.toLower_of_isDigit digit, digit] at other
    cases other
  have inf := @word "inf" (by decide)
  have infinity := @word "infinity" (by decide)
  have nan := @word "nan" (by decide)
  have stop : ∀ c, (fraction ++ exponent).head? = some c → c.isDigit = false := by
    obtain ⟨rfl, rfl⟩ | rfl := pointed
    · exact not_digit_of_readExponent? ends
    · rintro c ⟨rfl⟩
      decide
  obtain ⟨front, back⟩ := Text.takeWhile_append_ends digits stop
  have part : (Text.after? '.' (fraction ++ exponent) = none ∧ ds = [] ∧
      readExponent? (fraction ++ exponent) = some n) ∨
      ∃ tail, Text.after? '.' (fraction ++ exponent) = some tail ∧
        tail.takeWhile Char.isDigit = ds ∧ tail.dropWhile Char.isDigit = exponent := by
    obtain ⟨rfl, rfl⟩ | rfl := pointed
    · refine .inl ⟨Text.after?_eq_none fun first => ?_, rfl, ends⟩
      have letter := letter_of_readExponent? ends first
      exact absurd letter (by decide)
    · exact .inr ⟨ds ++ exponent, rfl,
        Text.takeWhile_append_ends decimals (not_digit_of_readExponent? ends)⟩
  have nonempty : whole.isEmpty = false := List.isEmpty_eq_false_iff.mpr filled
  obtain ⟨plain, rfl, bare⟩ | ⟨tail, point, taken, left⟩ := part
  · simp only [parse?, String.toList_ofList, signed, inf, infinity, nan, or_self, ↓reduceIte, front,
      back, plain, bare, nonempty, Bool.false_and, Bool.false_eq_true, Option.map_some]
  · simp only [parse?, String.toList_ofList, signed, inf, infinity, nan, or_self, ↓reduceIte, front,
      back, point, taken, left, nonempty, Bool.false_and, Bool.false_eq_true, ends, Option.map_some]

end SqlFragment.Double
