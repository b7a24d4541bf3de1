import SqlFragment.Grammar.Literal
import SqlFragment.Proofs.Grammar.Token
import SqlFragment.Proofs.Time.Literal

/-
Rules of literals, and literals in the texts of expressions: each is read back where it is written.
-/
namespace SqlFragment.Grammar
open Rule

/-- The value of a number whose parts were read apart from each other. -/
def numberValue (negative : Bool) (whole : List Char) (part : Option (List Char))
    (power : Option Int) : Value :=
  let ds := part.getD []
  let float := Double.ofDecimal negative (Text.digitsValue (whole ++ ds))
    (power.getD 0 - ds.length)
  let integer : Int :=
    if negative then -(Text.digitsValue whole : Int) else Text.digitsValue whole
  match part, power with
  | some _, _ => .float float
  | none, some _ =>
    if float.isInteger ∧ float.magnitude < 0x8000000000000000 * float.denominator then
      .integer (Int64.ofInt float.truncate)
    else .float float
  | none, none =>
    match Integer.ofInt? integer with
    | some n => .integer n
    | none => .float float

def number : Rule Expr := Rule.ofOption fun cs =>
  let (negative, body) := Double.takeSign cs
  let whole := body.takeWhile Char.isDigit
  if whole.isEmpty then none
  else
    let (part, rest) := Double.takeFraction (body.dropWhile Char.isDigit)
    let (power, rest) := Double.takeExponent rest
    match rest with
    | c :: _ =>
      if isNamePart c then none else some (.value (numberValue negative whole part power), rest)
    | [] => some (.value (numberValue negative whole part power), rest)

/-- The rest of a text of which something has been read already. -/
def quotedAfter (start : List Char) (inside : String) : Rule String := fun cs =>
  match Text.readQuoted? '\'' cs with
  | some (more, rest) => .ok (some (inside ++ String.ofList more, rest))
  | none => .error (.unexpected start)

def text : Rule Expr := do
  let start ← Rule.remaining
  Rule.char '\''
  let inside ← quotedAfter start ""
  return .value (.text inside)

def bytes : Rule Expr := do
  let start ← Rule.remaining
  Rule.char 'X' <|> Rule.char 'x'
  Rule.char '\''
  let ds ← Rule.takeWhile fun c => (Text.hexValue? c).isSome
  match Text.unhex? ds with
  | some bs => (Rule.char '\'' *> pure (.value (.binary bs))) <|> Rule.unexpected start
  | none => Rule.unexpected start

def timestamp (now : LocalTime) : Rule Expr := do
  let start ← Rule.remaining
  Rule.char '#'
  let content ← Rule.takeWhile isTimestampPart
  let trimmed := (Text.skipBlank (Text.skipBlank content).reverse).reverse
  if trimmed.isEmpty then failure
  Rule.char '#'
  match Timestamp.Literal.read? now trimmed with
  | some t => return .value (.timestamp t)
  | none => Rule.unexpected start

def constant : Rule Expr :=
  (keyword "true" *> pure (.value (.boolean true))) <|>
    (keyword "false" *> pure (.value (.boolean false))) <|>
    (keyword "null" *> pure (.value .null))

/-- What follows an operand in a text: a blank, a comma or a closing parenthesis. -/
def Ends (rest : List Char) : Prop := ∀ c, rest.head? = some c → c ∈ [' ', ')', ',']

section
variable {rest : List Char} {c : Char}

theorem ends_nil : Ends [] := fun _ first => nomatch first

theorem ends_cons (mark : c ∈ [' ', ')', ',']) (rest : List Char) : Ends (c :: rest) := by
  rintro d ⟨rfl⟩
  exact mark

theorem Ends.head_ne (ends : Ends rest) (other : c ∉ [' ', ')', ',']) : rest.head? ≠ some c :=
  fun first => other (ends c first)

theorem Ends.apart (ends : Ends rest) {p : Char → Bool}
    (free : [' ', ')', ','].all (! p ·) = true) (first : rest.head? = some c) : p c = false := by
  simpa using List.all_eq_true.1 free c (ends c first)

theorem Ends.endsWord (ends : Ends rest) : EndsWord rest := fun _ first =>
  ends.apart (by decide) first

theorem number_of_digits (ends : Ends rest) (negative : Bool) {sign ds : List Char}
    (digits : ∀ d ∈ ds, d.isDigit = true) (some : ds ≠ [])
    (signed : Double.takeSign (sign ++ (ds ++ rest)) = (negative, ds ++ rest)) :
    number.Gives (sign ++ (ds ++ rest)) (.value (numberValue negative ds none none)) rest := by
  have stop : ∀ d, rest.head? = Option.some d → d.isDigit = false := fun d first =>
    ends.apart (by decide) first
  obtain ⟨whole, after⟩ := Text.takeWhile_append_ends digits stop
  have nonempty : ds.isEmpty = false := List.isEmpty_eq_false_iff.mpr some
  have fraction : Double.takeFraction rest = (none, rest) := by
    cases rest with
    | nil => rfl
    | cons d rest =>
      have other : d ≠ '.' := fun same => ends.head_ne (by decide) (congrArg Option.some same)
      simp [Double.takeFraction, other]
  have exponent : Double.takeExponent rest = (none, rest) := by
    cases rest with
    | nil => rfl
    | cons d rest =>
      have lower : d ≠ 'e' := fun same => ends.head_ne (by decide) (congrArg Option.some same)
      have upper : d ≠ 'E' := fun same => ends.head_ne (by decide) (congrArg Option.some same)
      simp [Double.takeExponent, lower, upper]
  simp only [Gives, number, ofOption, signed, whole, after, nonempty, Bool.false_eq_true,
    ↓reduceIte, fraction, exponent]
  cases rest with
  | nil => rfl
  | cons d rest => simp [ends.endsWord d rfl]

theorem number_gives (n : Int64) (ends : Ends rest) :
    number.Gives ((toString n.toInt).toList ++ rest) (.value (.integer n)) rest := by
  by_cases nonneg : 0 ≤ n.toInt
  · have digits : ∀ d ∈ Nat.toDigits 10 n.toInt.toNat, d.isDigit = true := fun _ mem =>
      Integer.isDigit_of_mem_toDigits mem
    have value : numberValue false (Nat.toDigits 10 n.toInt.toNat) none none = .integer n := by
      simp only [numberValue, Text.digitsValue_toDigits, Bool.false_eq_true, ↓reduceIte,
        Int.toNat_of_nonneg nonneg, Integer.ofInt?_toInt]
    have unsigned : Double.takeSign ([] ++ (Nat.toDigits 10 n.toInt.toNat ++ rest)) =
        (false, Nat.toDigits 10 n.toInt.toNat ++ rest) := by
      refine Double.takeSign_of_digit ?_
      intro d first
      obtain ⟨c, cs, front⟩ := List.exists_cons_of_ne_nil
        (@Nat.toDigits_ne_nil n.toInt.toNat 10)
      rw [front] at first
      have same : c = d := by simpa using first
      exact digits d (by rw [front, same]; exact List.mem_cons_self)
    have gives := number_of_digits ends false digits Nat.toDigits_ne_nil unsigned
    rwa [value, List.nil_append, ← Integer.toList_toString_of_nonneg nonneg] at gives
  · have negative : n.toInt < 0 := by omega
    have digits : ∀ d ∈ Nat.toDigits 10 (-n.toInt).toNat, d.isDigit = true := fun _ mem =>
      Integer.isDigit_of_mem_toDigits mem
    have opposite : -((-n.toInt).toNat : Int) = n.toInt := by omega
    have value : numberValue true (Nat.toDigits 10 (-n.toInt).toNat) none none = .integer n := by
      simp only [numberValue, Text.digitsValue_toDigits, ↓reduceIte, opposite,
        Integer.ofInt?_toInt]
    have gives := @number_of_digits rest ends true ['-'] _ digits Nat.toDigits_ne_nil rfl
    rw [value] at gives
    rwa [Integer.toList_toString_of_neg negative]

theorem text_gives (s : String) (ends : Ends rest) :
    text.Gives ((Text.quoted '\'' '\'' s).toList ++ rest) (.value (.text s)) rest := by
  have inside := Text.readQuoted?_doubled '\'' s.toList rest (ends.head_ne (by decide))
  have written : (Text.quoted '\'' '\'' s).toList ++ rest =
      '\'' :: (Text.doubled '\'' s.toList ++ '\'' :: rest) := by simp [Text.quoted]
  rw [written]
  have read : (quotedAfter ('\'' :: (Text.doubled '\'' s.toList ++ '\'' :: rest)) "").Gives
      (Text.doubled '\'' s.toList ++ '\'' :: rest) s rest := by
    simp only [Gives, quotedAfter, inside, String.ofList_toList, String.empty_append]
  exact gives_remaining.bind ((gives_char '\'').bind (read.bind gives_pure))

theorem bytes_gives (bs : List UInt8) (rest : List Char) :
    bytes.Gives (("X'" ++ Text.hex bs ++ "'").toList ++ rest) (.value (.binary bs)) rest := by
  have written : ("X'" ++ Text.hex bs ++ "'").toList ++ rest =
      'X' :: '\'' :: ((Text.hex bs).toList ++ '\'' :: rest) := by simp
  obtain ⟨digits, after⟩ := @Text.takeWhile_append_ends ('\'' :: rest)
    (fun c => (Text.hexValue? c).isSome) (Text.hex bs).toList
    (fun c mem => Text.isSome_hexValue?_of_mem_hex mem) (by rintro d ⟨rfl⟩; decide)
  have inside := @gives_takeWhile ((Text.hex bs).toList ++ '\'' :: rest)
    fun c => (Text.hexValue? c).isSome
  rw [digits, after] at inside
  have opened : (char 'X' <|> char 'x').Gives
      ('X' :: '\'' :: ((Text.hex bs).toList ++ '\'' :: rest)) () _ := (gives_char 'X').orElse
  rw [written]
  refine gives_remaining.bind (opened.bind ((gives_char '\'').bind (inside.bind ?_)))
  rw [Text.unhex?_hex]
  exact ((gives_char '\'').seqRight gives_pure).orElse

theorem isTimestampPart_of_isShown {c : Char} (shown : Timestamp.Literal.isShown c = true) :
    isTimestampPart c = true ∧ Text.isBlank c = false := by
  simp only [Timestamp.Literal.isShown, Bool.or_eq_true, List.contains_iff_mem] at shown
  obtain digit | mark := shown
  · exact ⟨by simp [isTimestampPart, digit], Text.isBlank_of_isDigit digit⟩
  · have marks : ['-', 'T', ':', '.', '+'].all (fun d =>
        decide (isTimestampPart d = true ∧ Text.isBlank d = false)) = true := by decide
    exact of_decide_eq_true (List.all_eq_true.1 marks c mark)

/-- What stands between hash signs is read as a timestamp or found faulty. -/
theorem timestamp_between {inside : List Char} (now : LocalTime) (filled : inside ≠ [])
    (parts : ∀ c ∈ inside, isTimestampPart c = true ∧ Text.isBlank c = false) (rest : List Char) :
    timestamp now ('#' :: (inside ++ '#' :: rest)) =
      match Timestamp.Literal.read? now inside with
      | some t => .ok (some (.value (.timestamp t), rest))
      | none => .error (.unexpected ('#' :: (inside ++ '#' :: rest))) := by
  obtain ⟨content, after⟩ := @Text.takeWhile_append_ends ('#' :: rest) isTimestampPart inside
    (fun c mem => (parts c mem).1) (by rintro d ⟨rfl⟩; decide)
  have read := @gives_takeWhile (inside ++ '#' :: rest) isTimestampPart
  rw [content, after] at read
  have visible : ∀ c ∈ inside, Text.isBlank c = false := fun c mem => (parts c mem).2
  have trimmed : (Text.skipBlank (Text.skipBlank inside).reverse).reverse = inside := by
    rw [Text.skipBlank_of_all visible, Text.skipBlank_of_all, List.reverse_reverse]
    intro c mem
    exact visible c (List.mem_reverse.1 mem)
  have nonempty : inside.isEmpty = false := List.isEmpty_eq_false_iff.2 filled
  rw [timestamp, gives_remaining.bind_eq, (gives_char '#').bind_eq, read.bind_eq]
  simp only [trimmed, nonempty, Bool.false_eq_true, ↓reduceIte]
  rw [(gives_char '#').bind_eq]
  cases Timestamp.Literal.read? now inside <;> rfl

theorem display_timestamp (t : Timestamp) (rest : List Char) :
    (Value.timestamp t).display.toList ++ rest =
      '#' :: ((t.format Timestamp.literalLayout).toList ++ '#' :: rest) := by
  simp [Value.display]

theorem timestamp_apply (t : Timestamp) (now : LocalTime) (rest : List Char) :
    timestamp now ((Value.timestamp t).display.toList ++ rest) =
      match Timestamp.Literal.read? now (t.format Timestamp.literalLayout).toList with
      | some t' => .ok (some (.value (.timestamp t'), rest))
      | none => .error (.unexpected ((Value.timestamp t).display.toList ++ rest)) := by
  have shown := List.all_eq_true.1 (Timestamp.Literal.isShown_format t)
  have filled : (t.format Timestamp.literalLayout).toList ≠ [] := by
    rw [Timestamp.Literal.format_toList]
    simp
  rw [display_timestamp]
  exact timestamp_between now filled (fun c mem => isTimestampPart_of_isShown (shown c mem)) rest

theorem constant_gives {v : Value} (named : v = .boolean true ∨ v = .boolean false ∨ v = .null)
    (ends : EndsWord rest) : constant.Gives (v.display.toList ++ rest) (.value v) rest := by
  obtain rfl | rfl | rfl := named
  · have gives : (keyword "true").Gives ("true".toList ++ rest) () rest :=
      keyword_gives (by decide) (by decide) ends
    exact (gives.seqRight gives_pure).orElse
  · have gives : (keyword "false").Gives ("false".toList ++ rest) () rest :=
      keyword_gives (by decide) (by decide) ends
    exact Misses.orElse rfl (gives.seqRight gives_pure).orElse
  · have gives : (keyword "null").Gives ("null".toList ++ rest) () rest :=
      keyword_gives (by decide) (by decide) ends
    exact Misses.orElse rfl (Misses.orElse rfl (gives.seqRight gives_pure))

end

/-- What literals other than null begin with. -/
theorem display_cons {v : Value} (notNull : v ≠ .null) (whole : ∀ x, v ≠ .float x) :
    ∃ c tail, v.display.toList = c :: tail ∧
      (c ∈ ['t', 'f', '-', '\'', '#', 'X'] ∨ (∃ n, v = .integer n) ∧ c.isDigit = true) := by
  cases v with
  | null => exact absurd rfl notNull
  | boolean b =>
    cases b with
    | true => exact ⟨'t', _, rfl, .inl (by decide)⟩
    | false => exact ⟨'f', _, rfl, .inl (by decide)⟩
  | integer n =>
    obtain ⟨c, tail, text, rfl | digit⟩ := Integer.toString_cons n.toInt
    · exact ⟨'-', tail, text, .inl (by decide)⟩
    · exact ⟨c, tail, text, .inr ⟨⟨n, rfl⟩, digit⟩⟩
  | float x => exact absurd rfl (whole x)
  | text s =>
    exact ⟨'\'', Text.doubled '\'' s.toList ++ ['\''], by simp [Value.display, Text.quoted],
      .inl (by decide)⟩
  | timestamp t =>
    exact ⟨'#', (t.format Timestamp.literalLayout).toList ++ ['#'], by simp [Value.display],
      .inl (by decide)⟩
  | binary bs =>
    exact ⟨'X', '\'' :: ((Text.hex bs).toList ++ ['\'']), by simp [Value.display],
      .inl (by decide)⟩

/-- The values that a literal denotes. -/
def Denoted : Value → Prop
  | .timestamp t => t.Restorable
  | _ => True

section
variable {now : LocalTime} {cs rest : List Char} {e : Expr}

/-- A rule that reads literals, where a null is written out. -/
def ReadsLiterals (rule : Rule Expr) : Prop :=
  ∀ ⦃cs e rest⦄, rule.Gives cs e rest → ∃ v, e = .value v ∧ Denoted v ∧ (v = .null → Begins "null" cs)

theorem numberValue_denoted (negative : Bool) (whole : List Char) (part : Option (List Char))
    (power : Option Int) :
    Denoted (numberValue negative whole part power) ∧
      numberValue negative whole part power ≠ .null := by
  cases part with
  | some ds => exact ⟨trivial, by simp [numberValue]⟩
  | none =>
    cases power with
    | some p =>
      simp only [numberValue]
      split <;> exact ⟨trivial, by simp⟩
    | none =>
      simp only [numberValue]
      split <;> exact ⟨trivial, by simp⟩

theorem number_reads : ReadsLiterals number := by
  intro cs e rest gives
  have value : ∃ negative whole part power, e = .value (numberValue negative whole part power) := by
    simp only [Gives, number, ofOption, Except.ok.injEq] at gives
    split at gives
    · cases gives
    split at gives
    · split at gives
      · cases gives
      · cases gives
        exact ⟨_, _, _, _, rfl⟩
    · cases gives
      exact ⟨_, _, _, _, rfl⟩
  obtain ⟨negative, whole, part, power, rfl⟩ := value
  obtain ⟨denoted, notNull⟩ := numberValue_denoted negative whole part power
  exact ⟨_, rfl, denoted, fun null => absurd null notNull⟩

theorem text_reads : ReadsLiterals text := by
  intro cs e rest gives
  obtain ⟨start, _, -, gives⟩ := gives_bind gives
  obtain ⟨_, _, -, gives⟩ := gives_bind gives
  obtain ⟨inside, _, -, gives⟩ := gives_bind gives
  cases gives
  exact ⟨_, rfl, trivial, by simp⟩

theorem bytes_reads : ReadsLiterals bytes := by
  intro cs e rest gives
  obtain ⟨start, _, -, gives⟩ := gives_bind gives
  obtain ⟨_, _, -, gives⟩ := gives_bind gives
  obtain ⟨_, _, -, gives⟩ := gives_bind gives
  obtain ⟨ds, _, -, gives⟩ := gives_bind gives
  split at gives
  · obtain gives | ⟨-, gives⟩ := gives_orElse gives
    · obtain ⟨_, _, -, gives⟩ := gives_seqRight gives
      cases gives
      exact ⟨_, rfl, trivial, by simp⟩
    · exact absurd gives gives_unexpected
  · exact absurd gives gives_unexpected

theorem gives_timestamp (gives : (timestamp now).Gives cs e rest) :
    ∃ content t, e = .value (.timestamp t) ∧ Timestamp.Literal.read? now content = some t := by
  obtain ⟨start, _, -, gives⟩ := gives_bind gives
  obtain ⟨_, _, -, gives⟩ := gives_bind gives
  obtain ⟨content, _, -, gives⟩ := gives_bind gives
  dsimp only at gives
  split at gives
  · obtain ⟨_, _, failed, -⟩ := gives_bind gives
    cases failed
  obtain ⟨_, _, -, gives⟩ := gives_bind gives
  split at gives
  · rename_i t read
    cases gives
    exact ⟨_, t, rfl, read⟩
  · exact absurd gives gives_unexpected

theorem timestamp_reads (clock : now.Ordinary) : ReadsLiterals (timestamp now) := by
  intro cs e rest gives
  obtain ⟨content, t, rfl, read⟩ := gives_timestamp gives
  exact ⟨_, rfl, Timestamp.Literal.restorable_of_read? clock read, by simp⟩

theorem constant_reads : ReadsLiterals constant := by
  intro cs e rest gives
  obtain gives | ⟨-, gives⟩ := gives_orElse gives
  · obtain ⟨_, _, -, gives⟩ := gives_seqRight gives
    cases gives
    exact ⟨_, rfl, trivial, by simp⟩
  obtain gives | ⟨-, gives⟩ := gives_orElse gives
  · obtain ⟨_, _, -, gives⟩ := gives_seqRight gives
    cases gives
    exact ⟨_, rfl, trivial, by simp⟩
  · obtain ⟨_, _, null, gives⟩ := gives_seqRight gives
    cases gives
    exact ⟨_, rfl, trivial, fun _ => begins_of_token (by decide) null⟩

end

end SqlFragment.Grammar
