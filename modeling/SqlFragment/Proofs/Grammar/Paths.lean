import SqlFragment.Proofs.Grammar.Displayed

/-
Paths as texts: names joined by dots are read as the column of these names, also where the first
name is spelled like an operator or a case distinction, since nothing comes after it that these
could be read with. Only what stands between hash signs is taken for a timestamp before the rule
for paths is tried, and no path can be read as one.
-/
namespace SqlFragment.Grammar
open Rule

/-- Where the rule for timestamps is not left any more: at a hash sign, something that may stand in
a timestamp, and another hash sign. -/
def Hashed (cs : List Char) : Prop :=
  ∃ inside rest, cs = '#' :: (inside ++ '#' :: rest) ∧ inside ≠ [] ∧
    ∀ c ∈ inside, isTimestampPart c = true

section
variable {now : LocalTime} {cs rest : List Char}

theorem hashed_iff : Hashed cs ↔ cs.head? = some '#' ∧ cs.tail.takeWhile isTimestampPart ≠ [] ∧
    (cs.tail.dropWhile isTimestampPart).head? = some '#' := by
  constructor
  · rintro ⟨inside, rest, rfl, filled, parts⟩
    obtain ⟨content, after⟩ := @Text.takeWhile_append_ends ('#' :: rest) isTimestampPart inside parts
      (by rintro d ⟨rfl⟩; decide)
    rw [List.tail_cons, content, after]
    exact ⟨rfl, filled, rfl⟩
  · rintro ⟨hash, filled, closed⟩
    obtain ⟨tail, rfl⟩ := List.head?_eq_some_iff.1 hash
    obtain ⟨rest, after⟩ := List.head?_eq_some_iff.1 closed
    refine ⟨_, rest, ?_, filled, List.all_eq_true.1 List.all_takeWhile⟩
    rw [List.tail_cons] at after ⊢
    rw [← after, List.takeWhile_append_dropWhile]

instance (cs : List Char) : Decidable (Hashed cs) := decidable_of_iff _ hashed_iff.symm

theorem timestamp_misses_of_not_hashed (other : ¬Hashed cs) : (timestamp now).Misses cs := by
  by_cases hash : cs.head? = some '#'
  · obtain ⟨tail, rfl⟩ := List.head?_eq_some_iff.1 hash
    refine gives_remaining.bind_misses ((gives_char '#').bind_misses
      ((gives_takeWhile isTimestampPart).bind_misses ?_))
    -- either nothing of a timestamp follows, or the hash sign behind it is missing
    by_cases filled : tail.takeWhile isTimestampPart = []
    · rw [filled]
      exact misses_failure
    · have unclosed : (char '#').Misses (tail.dropWhile isTimestampPart) :=
        misses_char fun closed => other (hashed_iff.2 ⟨rfl, filled, closed⟩)
      dsimp only
      split
      · exact misses_failure
      · exact unclosed.bind
  · exact timestamp_misses hash

def isPathPart (c : Char) : Bool := isNamePart c || c == '.'

theorem isPathPart_of_mem_dotted {names : List String} (named : ∀ n ∈ names, isName n = true)
    {c : Char} (mem : c ∈ dotted names) : isPathPart c = true := by
  obtain ⟨n, listed, here⟩ := List.mem_flatMap.1 mem
  obtain rfl | inside := List.mem_cons.1 here
  · rfl
  · obtain ⟨-, -, -, -, parts⟩ := isName_cons (named n listed)
    simp [isPathPart, parts c inside]

theorem isPathPart_of_mem_display {p : Path} (isPath : IsPath p) :
    ∀ c ∈ p.display.toList, isPathPart c = true := by
  obtain ⟨some, -, named⟩ := isPath
  obtain ⟨n, names, rfl⟩ := List.exists_cons_of_ne_nil some
  obtain ⟨first, later⟩ := List.forall_mem_cons.1 named
  obtain ⟨-, -, -, -, parts⟩ := isName_cons first
  rw [display_cons_toList]
  intro c mem
  obtain front | back := List.mem_append.1 mem
  · simp [isPathPart, parts c front]
  · exact isPathPart_of_mem_dotted later back

theorem visible_of_isPathPart {c : Char} (part : isPathPart c = true) : Text.isBlank c = false := by
  cases blank : Text.isBlank c with
  | false => rfl
  | true =>
    have other : c ≠ '.' := by
      rintro rfl
      exact absurd blank (by decide)
    simp [isPathPart, isNamePart_of_isBlank blank, other] at part

theorem timestamp_refuses_path (hashed : Hashed cs) (parts : ∀ c ∈ cs, isPathPart c = true) :
    timestamp now cs = .error (.unexpected cs) := by
  obtain ⟨inside, rest, rfl, filled, allowed⟩ := hashed
  have here : ∀ c ∈ inside, isPathPart c = true := fun c mem => parts c (by simp [mem])
  have absent : ∀ {c}, isPathPart c = false → c ∉ inside := fun other mem =>
    absurd (here _ mem) (by simp [other])
  rw [timestamp_between now filled
      (fun c mem => ⟨allowed c mem, visible_of_isPathPart (here c mem)⟩) rest,
    Timestamp.Literal.read?_eq_none now (absent (by decide)) (absent (by decide))]

end

section
variable {now : LocalTime} {expression term : Rule Expr} {cs : List Char}

theorem termOf_misses_dotted (names : List String) :
    ((standard now).termOf expression term).Misses (dotted names) := by
  cases names with
  | nil => rfl
  | cons n names => rfl

theorem level_misses_dotted (depth : Nat) (names : List String) :
    ((standard now).level depth).expression.Misses (dotted names) ∧
      ((standard now).level depth).term.Misses (dotted names) := by
  cases depth with
  | zero => exact ⟨rfl, rfl⟩
  | succ depth => exact ⟨(termOf_misses_dotted names).bind, termOf_misses_dotted names⟩

theorem prefixRule_misses_of_missing {t : String} {op : UnaryOperator} (keyword : IsKeyword t)
    (visible : ∀ c ∈ cs, Text.isBlank c = false) (missing : term.Misses []) :
    (prefixRule term t true op).Misses cs := by
  obtain misses | ⟨rest, found⟩ := token_misses_or_gives t true cs
  · exact misses.bind
  obtain ⟨after, ends⟩ := gives_token found
  obtain ⟨front, rfl, -⟩ := afterToken?_eq_some keyword.visible after
  -- the word needs a blank behind it, or ends the text and leaves no operand
  cases rest with
  | nil => exact found.bind_misses (gives_blanks.bind_misses missing.bind)
  | cons c rest =>
    have shown := visible c (by simp)
    simp [endsBefore, shown] at ends

theorem endsWord_dots (names : List String) : EndsWord (dotted names) := by
  simpa using endsWord_dotted names endsWord_nil

theorem not_begins_dotted {w : String} (keyword : IsKeyword w) (names : List String) :
    ¬Begins w (dotted names) := by
  cases names with
  | nil => exact fun begins => keyword.1 begins.symm
  | cons n names => exact not_begins_of_mark keyword (by decide) _

theorem visible_dotted (names : List String) : Visible (dotted names) := by
  cases names with
  | nil => rintro c ⟨⟩
  | cons n names =>
    rintro c ⟨rfl⟩
    decide

theorem caseOf_misses_of_missing {n : String} (named : isName n = true) (names : List String)
    (missing : expression.Misses (dotted names)) :
    (caseOf expression).Misses (n.toList ++ dotted names) := by
  by_cases begins : Begins "case" (n.toList ++ dotted names)
  · obtain ⟨-, -, -, -, parts⟩ := isName_cons named
    have opened := keyword_gives_of_begins (by decide) begins
    rw [dropWord_append parts (endsWord_dots names)] at opened
    have next : (comesNext "when").Gives (dotted names) (Begins "when" (dotted names))
        (dotted names) := comesNext_gives (by decide)
    -- behind the keyword there is neither an arm nor anything to distinguish
    refine gives_remaining.bind_misses (opened.bind_misses
      ((gives_blanks_of_visible (visible_dotted names)).bind_misses (next.bind_misses ?_)))
    rw [decide_eq_false (not_begins_dotted (by decide) names), if_neg Bool.false_ne_true]
    exact Misses.bind (Misses.bind missing)
  · exact caseOf_misses begins

end

section
variable {now : LocalTime} {n : String} {names : List String}

theorem applied_misses_path (isPath : IsPath (n :: names)) (depth : Nat) :
    ((standard now).applied ((standard now).level depth).term).Misses
      (n.toList ++ dotted names) := by
  have parts := isPathPart_of_mem_display isPath
  rw [display_cons_toList] at parts
  have keywords : ∀ t ∈ ["exists", "not"], IsKeyword t := by decide
  refine applied_misses_of_words now _ ?_ ?_
  · intro t listed op
    exact prefixRule_misses_of_missing (keywords t listed)
      (fun c mem => visible_of_isPathPart (parts c mem)) (level_misses_dotted depth []).2
  · obtain ⟨c, more, chars, start, -⟩ := isName_cons (isPath.2.2 n List.mem_cons_self)
    rw [chars]
    rintro d ⟨rfl⟩
    exact (unsigned_of_isNameStart start).1

theorem number_misses_name (named : isName n = true) (tail : List Char) :
    number.Misses (n.toList ++ tail) := by
  obtain ⟨c, more, chars, start, -⟩ := isName_cons named
  obtain ⟨unsigned, digit⟩ := unsigned_of_isNameStart start
  refine number_misses ?_
  rw [chars, List.cons_append, takeSign_of_unsigned unsigned]
  rintro d ⟨rfl⟩
  exact digit

theorem primary_gives_path (isPath : IsPath (n :: names)) (unreserved : Unreserved n)
    (other : ¬Hashed (n.toList ++ dotted names)) (depth : Nat) :
    ((standard now).primary ((standard now).level depth).expression).Gives
      (n.toList ++ dotted names) (.column (n :: names)) [] := by
  have read := path_gives isPath ends_nil
  rw [display_cons_toList, List.append_nil] at read
  have named := isPath.2.2 n List.mem_cons_self
  have ends := endsWord_dots names
  have behind : (dotted names).head? ≠ some '(' ∧ (dotted names).head? ≠ some '\'' := by
    cases names <;> simp [dotted]
  have noCase := caseOf_misses_of_missing named names (@level_misses_dotted now depth names).1
  refine primary_of_name named unreserved ends behind.2 noCase
    (timestamp_misses_of_not_hashed other) (.inr ⟨?_, read⟩)
  exact (name_gives named ends).bind_misses (misses_char behind.1).bind

/-- Operators, case distinctions and timestamps are left, and the path is read to its end. -/
theorem level_gives_path (isPath : IsPath (n :: names)) (unreserved : Unreserved n)
    (other : ¬Hashed (n.toList ++ dotted names)) (depth : Nat) :
    ((standard now).level (depth + 1)).expression.Gives (n.toList ++ dotted names)
      (.column (n :: names)) [] := by
  have stops : Stops [] := by rintro c ⟨⟩
  have noNumber := number_misses_name (isPath.2.2 n List.mem_cons_self) (dotted names)
  refine expressionOf_term ?_ (operatorBetween_misses_of_stops now stops)
  refine Misses.orElse noNumber.bind ((applied_misses_path isPath depth).orElse (Gives.orElse ?_))
  exact (primary_gives_path isPath unreserved other depth).bind
    (operatorsAfter_none (operatorAfter_misses_of_stops now stops))

end

/-- Names joined by dots, the first of them no constant, are read as the column of these names,
unless they open a timestamp: then nothing can be read. -/
theorem parse_display_path (now : LocalTime) {p : Path} (isPath : IsPath p)
    (unreserved : ∀ n ∈ p.head?, Unreserved n) :
    (standard now).parse p.display =
      if Hashed p.display.toList then
        .error (.unexpected (String.ofList (p.display.toList.take 24)) 0)
      else .ok (.column p) := by
  have skipped := Text.skipBlank_of_all fun c mem =>
    visible_of_isPathPart (isPathPart_of_mem_display isPath c mem)
  simp only [parse_standard, parseChars, skipped]
  by_cases hashed : Hashed p.display.toList
  · have faults := @timestamp_refuses_path now _ hashed (isPathPart_of_mem_display isPath)
    rw [if_pos hashed]
    obtain ⟨inside, rest, text, -⟩ := hashed
    rw [text] at faults ⊢
    rw [level_error_of_timestamp faults]
    simp [unexpectedAt]
  · rw [if_neg hashed]
    obtain ⟨n, names, rfl⟩ := List.exists_cons_of_ne_nil isPath.1
    rw [display_cons_toList] at hashed ⊢
    rw [level_gives_path isPath (unreserved n rfl) hashed]
    rfl

/-- A path of one name is taken for a timestamp, whatever the clock shows. -/
theorem path_between_hash_signs :
    IsPath ["#T#"] ∧ Unreserved "#T#" ∧ Path.display ["#T#"] = "#T#" ∧
      ∀ now, (standard now).parse "#T#" = .error (.unexpected "#T#" 0) :=
  ⟨by decide, by decide, by decide, fun now => rfl⟩

/-- Neither keywords nor hash signs alone keep a path from being read. -/
theorem parse_display_path_of_keywords :
    IsPath ["case", "not", "#t", "null"] ∧ Unreserved "case" ∧
      (standard ⟨⟨2024, 2, 29⟩, 3600, 0⟩).parse "case.not.#t.null" =
        .ok (.column ["case", "not", "#t", "null"]) ∧
    IsPath ["#t", "#1"] ∧ Unreserved "#t" ∧
      (standard ⟨⟨2024, 2, 29⟩, 3600, 0⟩).parse "#t.#1" = .error (.unexpected "#t.#1" 0) := by
  have keywords : IsPath ["case", "not", "#t", "null"] := by decide
  have hashes : IsPath ["#t", "#1"] := by decide
  have read := parse_display_path ⟨⟨2024, 2, 29⟩, 3600, 0⟩ keywords (by rintro n ⟨rfl⟩; decide)
  have refused := parse_display_path ⟨⟨2024, 2, 29⟩, 3600, 0⟩ hashes (by rintro n ⟨rfl⟩; decide)
  have columnText : Path.display ["case", "not", "#t", "null"] = "case.not.#t.null" := by decide
  have refusedText : Path.display ["#t", "#1"] = "#t.#1" := by decide
  rw [columnText, if_neg (by decide)] at read
  rw [refusedText, if_pos (by decide)] at refused
  exact ⟨keywords, by decide, read, hashes, by decide, refused⟩

end SqlFragment.Grammar
