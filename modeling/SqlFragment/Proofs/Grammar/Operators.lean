import SqlFragment.Proofs.Grammar.Expression

/-
The standard operators in the texts of expressions: each is read back where it is written, and none
is read where another text follows.
-/
namespace SqlFragment.Grammar
open Rule

def standard (now : LocalTime) : Grammar := ⟨Operators.standard, now⟩

/-- The operators before an operand, as they are tried: token, blank after it, operator. -/
def prefixes : List (String × Bool × UnaryOperator) :=
  [("exists", true, .existence), ("not", true, .not), ("+", false, .plus), ("-", false, .minus),
    ("~", false, .bitwiseNot)]

def suffixes : List (String × UnaryOperator) := [("is not null", .isNotNull), ("is null", .isNull)]

/-- The operators between two operands, as they are tried: token, blanks beside it, operator. -/
def infixes : List (String × Bool × BinaryOperator) :=
  [("not like", true, .notLike), ("is not", true, .isNot), ("not in", true, .notIn),
    ("like", true, .like), ("and", true, .and), ("xor", true, .xor), ("!=", false, .notEq),
    ("<<", false, .shiftLeft), ("<=", false, .ltEq), ("<>", false, .notEq), (">=", false, .gtEq),
    (">>", false, .shiftRight), ("in", true, .isIn), ("is", true, .is), ("or", true, .or),
    ("||", false, .stringConcat), ("%", false, .modulo), ("&", false, .bitwiseAnd),
    ("*", false, .multiply), ("+", false, .plus), ("-", false, .minus), ("/", false, .divide),
    ("<", false, .lt), ("=", false, .eq), (">", false, .gt), ("^", false, .bitwiseXor),
    ("|", false, .bitwiseOr)]

theorem standard_unary : Operators.standard.unary =
    suffixes.map (fun row => (row.1, ⟨.unary row.2, .after, ⟨true, false⟩⟩)) ++
      prefixes.map fun row => (row.1, ⟨.unary row.2.2, .before, ⟨false, row.2.1⟩⟩) := rfl

theorem standard_binary : Operators.standard.binary =
    infixes.map fun row => (row.1, ⟨.binary row.2.2, ⟨row.2.1, row.2.1⟩⟩) := rfl

def prefixRule (term : Rule Expr) (t : String) (right : Bool) (op : UnaryOperator) : Rule Expr := do
  token t right
  let _ ← Rule.blanks
  let operand ← term
  Rule.build (.unary op) [operand]

theorem applied_standard (now : LocalTime) (term : Rule Expr) :
    (standard now).applied term = Rule.firstOf (failure :: failure ::
      prefixes.map fun row => prefixRule term row.1 row.2.1 row.2.2) := by
  rw [applied, standard, standard_unary]
  rfl

def suffixRule (spaced : Bool) (t : String) (op : UnaryOperator) : Rule Constructor :=
  if spaced then (do
    token t false
    return .unary op)
  else failure

theorem operatorAfter_standard (now : LocalTime) :
    (standard now).operatorAfter = (do
      let spaced ← Rule.blanks
      Rule.firstOf (suffixes.map (fun row => suffixRule spaced row.1 row.2) ++
        [failure, failure, failure, failure, failure])) := by
  rw [operatorAfter, standard, standard_unary]
  congr 1
  funext spaced
  cases spaced <;> rfl

def infixRule (spaced : Bool) (t : String) (bounded : Bool) (op : BinaryOperator) :
    Rule Constructor :=
  if bounded && !spaced then failure
  else (do
    token t bounded
    return .binary op)

theorem operatorBetween_standard (now : LocalTime) :
    (standard now).operatorBetween = (do
      let spaced ← Rule.blanks
      Rule.firstOf (infixes.map fun row => infixRule spaced row.1 row.2.1 row.2.2)) := by
  rw [operatorBetween, standard, standard_binary]
  congr 1
  funext spaced
  cases spaced <;> rfl

section
variable {text rest cs : List Char} {op : BinaryOperator}

/-- A text that does not begin with a blank. -/
def Visible (text : List Char) : Prop := ∀ c, text.head? = some c → Text.isBlank c = false

theorem skipBlank_of_visible (visible : Visible text) : Text.skipBlank text = text := by
  cases text with
  | nil => rfl
  | cons c text => simp [Text.skipBlank, visible c rfl]

theorem gives_blanks_space (visible : Visible text) : blanks.Gives (' ' :: text) true text := by
  have skipped : Text.skipBlank (' ' :: text) = text := skipBlank_of_visible visible
  have gives := @gives_blanks (' ' :: text)
  rw [skipped] at gives
  simpa using gives

theorem gives_blanks_of_visible (visible : Visible text) : blanks.Gives text false text := by
  have gives := @gives_blanks text
  rw [skipBlank_of_visible visible] at gives
  simpa using gives

theorem infixes_give (other : op ≠ .between ∧ op ≠ .is) (text : List Char) :
    (firstOf (infixes.map fun row => infixRule true row.1 row.2.1 row.2.2)).Gives
      (op.spelling.toList ++ ' ' :: text) (.binary op) (' ' :: text) := by
  cases op <;> first | rfl | exact absurd rfl other.1 | exact absurd rfl other.2

theorem suffixes_miss (other : op ≠ .is ∧ op ≠ .isNot) (text : List Char) :
    (firstOf (suffixes.map (fun row => suffixRule true row.1 row.2) ++
      [failure, failure, failure, failure, failure])).Misses
      (op.spelling.toList ++ ' ' :: text) := by
  cases op <;> first | rfl | exact absurd rfl other.1 | exact absurd rfl other.2

theorem begins_of_afterToken? {word : String} {more after : List Char} (keyword : IsKeyword word)
    (found : afterToken? (word.toList ++ ' ' :: more) text = some after) : Begins word text := by
  rw [afterToken?_append, Option.bind_eq_some_iff] at found
  obtain ⟨mid, first, second⟩ := found
  obtain ⟨front, rfl, lower⟩ := afterToken?_eq_some keyword.visible first
  rw [keyword.lower] at lower
  refine begins_of_front keyword lower ?_
  cases mid with
  | nil => exact endsWord_nil
  | cons c mid =>
    rw [afterToken?] at second
    split at second
    · rename_i blank
      exact endsWord_cons (isNamePart_of_isBlank blank) mid
    · cases second

theorem token_misses_of_none {t : String} {right : Bool}
    (none : afterToken? t.toList cs = none) : (token t right).Misses cs := by
  simp only [Misses, token, ofOption, none]

theorem token_misses_of_word {t word : String} {front : List Char} {right : Bool}
    (keyword : IsKeyword word) (spelling : t.toList = front ++ word.toList)
    (after : afterToken? t.toList cs = afterToken? word.toList text)
    (other : ¬Begins word text) : (token t right).Misses cs := by
  cases found : afterToken? word.toList text with
  | none => exact token_misses_of_none (after.trans found)
  | some mid =>
    cases ends : endsBefore t.toList right mid with
    | false => simp only [Misses, token, ofOption, after, found, ends, Bool.false_eq_true, ↓reduceIte]
    | true =>
      obtain ⟨begun, rfl, lower⟩ := afterToken?_eq_some keyword.visible found
      rw [keyword.lower] at lower
      refine absurd (begins_of_front keyword lower ?_) other
      obtain ⟨last, final, letter⟩ := keyword.getLast?
      cases mid with
      | nil => exact endsWord_nil
      | cons c mid =>
        have same : t.toList.getLast? = some last := by
          rw [spelling, List.getLast?_append, final, Option.some_or]
        simp only [endsBefore, same, letter, Bool.true_and, Bool.and_eq_true, Bool.not_eq_true']
          at ends
        exact endsWord_cons ends.1 mid

theorem infixRule_misses {t : String} {spaced bounded : Bool}
    (misses : (token t bounded).Misses cs) : (infixRule spaced t bounded op).Misses cs := by
  unfold infixRule
  split
  · exact misses_failure
  · exact misses.bind

theorem suffixRule_misses {t : String} {op : UnaryOperator} {spaced : Bool}
    (misses : (token t false).Misses cs) : (suffixRule spaced t op).Misses cs := by
  unfold suffixRule
  split
  · exact misses.bind
  · exact misses_failure

theorem infixes_give_is (visible : Visible text) (other : ¬Begins "not" text) :
    (firstOf (infixes.map fun row => infixRule true row.1 row.2.1 row.2.2)).Gives
      ("IS".toList ++ ' ' :: text) (.binary .is) (' ' :: text) := by
  have negated : (token "is not" true).Misses ("IS".toList ++ ' ' :: text) := by
    refine @token_misses_of_word text _ "is not" "not" ['i', 's', ' '] true (by decide) rfl ?_ other
    exact congrArg (afterToken? "not".toList) (skipBlank_of_visible visible)
  refine Misses.orElse rfl (Misses.orElse (infixRule_misses negated) ?_)
  rfl

theorem suffixes_miss_is (visible : Visible text) (other : ¬Begins "not" text)
    (notNull : ¬Begins "null" text) :
    (firstOf (suffixes.map (fun row => suffixRule true row.1 row.2) ++
      [failure, failure, failure, failure, failure])).Misses ("IS".toList ++ ' ' :: text) := by
  have skipped := skipBlank_of_visible visible
  have negated : (token "is not null" false).Misses ("IS".toList ++ ' ' :: text) := by
    refine token_misses_of_none ?_
    have after : afterToken? "is not null".toList ("IS".toList ++ ' ' :: text) =
        afterToken? ("not".toList ++ ' ' :: "null".toList) text :=
      congrArg (afterToken? "not null".toList) skipped
    cases found : afterToken? ("not".toList ++ ' ' :: "null".toList) text with
    | none => exact after.trans found
    | some rest => exact absurd (begins_of_afterToken? (by decide) found) other
  have plain : (token "is null" false).Misses ("IS".toList ++ ' ' :: text) := by
    refine @token_misses_of_word text _ "is null" "null" ['i', 's', ' '] false (by decide) rfl ?_
      notNull
    exact congrArg (afterToken? "null".toList) skipped
  exact (suffixRule_misses negated).orElse_misses ((suffixRule_misses plain).orElse_misses rfl)

theorem suffixes_miss_isNot (visible : Visible text) (notNull : ¬Begins "null" text) :
    (firstOf (suffixes.map (fun row => suffixRule true row.1 row.2) ++
      [failure, failure, failure, failure, failure])).Misses ("IS NOT".toList ++ ' ' :: text) := by
  have negated : (token "is not null" false).Misses ("IS NOT".toList ++ ' ' :: text) := by
    refine @token_misses_of_word text _ "is not null" "null" "is not ".toList false (by decide) rfl
      ?_ notNull
    exact congrArg (afterToken? "null".toList) (skipBlank_of_visible visible)
  exact (suffixRule_misses negated).orElse_misses rfl

end

section
variable {text rest : List Char} {op : BinaryOperator} (now : LocalTime)

/-- What must not follow an operator for it to be read as it is written. -/
def Follows (op : BinaryOperator) (text : List Char) : Prop :=
  Visible text ∧ ((op = .is ∨ op = .isNot) → ¬Begins "null" text) ∧
    (op = .is → ¬Begins "not" text)

theorem visible_spelling (op : BinaryOperator) (text : List Char) :
    Visible (op.spelling.toList ++ text) := by
  cases op <;> · rintro c ⟨rfl⟩; rfl

theorem operatorBetween_gives (other : op ≠ .between) (follows : Follows op text) :
    (standard now).operatorBetween.Gives (' ' :: (op.spelling.toList ++ ' ' :: text)) (.binary op)
      (' ' :: text) := by
  rw [operatorBetween_standard]
  refine (gives_blanks_space (visible_spelling op _)).bind ?_
  by_cases plain : op = .is
  · subst plain
    exact infixes_give_is follows.1 (follows.2.2 rfl)
  · exact infixes_give ⟨other, plain⟩ text

/-- An operator between two operands is not read as one after the first. -/
theorem operatorAfter_misses (follows : Follows op text) :
    (standard now).operatorAfter.Misses (' ' :: (op.spelling.toList ++ ' ' :: text)) := by
  rw [operatorAfter_standard]
  refine (gives_blanks_space (visible_spelling op _)).bind_misses ?_
  by_cases plain : op = .is
  · subst plain
    exact suffixes_miss_is follows.1 (follows.2.2 rfl) (follows.2.1 (.inl rfl))
  · by_cases negated : op = .isNot
    · subst negated
      exact suffixes_miss_isNot follows.1 (follows.2.1 (.inr rfl))
    · exact suffixes_miss ⟨plain, negated⟩ text

end

def operatorStarts : List Char :=
  ['n', 'i', 'l', 'a', 'x', '!', '<', '>', 'o', '|', '%', '&', '*', '+', '-', '/', '=', '^']

def Stops (rest : List Char) : Prop :=
  ∀ c, (Text.skipBlank rest).head? = some c → c.toLower ∉ operatorStarts

section
variable {cs rest : List Char} (now : LocalTime)

theorem token_misses_of_head {t : String} {right : Bool} {d : Char} {ds : List Char}
    (spelling : t.toList = d :: ds) (visible : d ≠ ' ')
    (other : ∀ c, cs.head? = some c → c.toLower ≠ d.toLower) : (token t right).Misses cs := by
  refine token_misses_of_none ?_
  rw [spelling]
  cases cs with
  | nil => exact afterToken?.eq_5 d ds visible
  | cons c cs => rw [afterToken?.eq_4 d ds c cs visible, if_neg (other c rfl)]

def startsLike (t : String) : Bool :=
  t.toList.head?.any fun d => d != ' ' && operatorStarts.contains d.toLower

theorem token_misses_of_stop {t : String} {right : Bool} (starts : startsLike t = true)
    (stop : ∀ c, cs.head? = some c → c.toLower ∉ operatorStarts) : (token t right).Misses cs := by
  cases chars : t.toList with
  | nil => simp [startsLike, chars] at starts
  | cons d ds =>
    simp only [startsLike, chars, List.head?_cons, Option.any_some, Bool.and_eq_true, bne_iff_ne,
      ne_eq, List.contains_eq_mem, decide_eq_true_eq] at starts
    refine token_misses_of_head chars starts.1 ?_
    intro c first same
    rw [← same] at starts
    exact stop c first starts.2

theorem operatorBetween_misses_of_stops (stops : Stops rest) :
    (standard now).operatorBetween.Misses rest := by
  have starts : ∀ row ∈ infixes, startsLike row.1 = true := by decide
  rw [operatorBetween_standard]
  refine gives_blanks.bind_misses (misses_firstOf ?_)
  intro rule listed
  obtain ⟨row, member, rfl⟩ := List.mem_map.mp listed
  exact infixRule_misses (token_misses_of_stop (starts row member) stops)

theorem operatorAfter_misses_of_stops (stops : Stops rest) :
    (standard now).operatorAfter.Misses rest := by
  have starts : ∀ row ∈ suffixes, startsLike row.1 = true := by decide
  rw [operatorAfter_standard]
  refine gives_blanks.bind_misses (misses_firstOf ?_)
  intro rule listed
  obtain known | failing := List.mem_append.mp listed
  · obtain ⟨row, member, rfl⟩ := List.mem_map.mp known
    exact suffixRule_misses (token_misses_of_stop (starts row member) stops)
  · have same : rule = failure := by simpa using failing
    rw [same]
    exact misses_failure

theorem suffixRule_gives {t : String} {op : UnaryOperator} (found : (token t false).Gives cs () rest) :
    (suffixRule true t op).Gives cs (.unary op) rest :=
  Gives.bind found (gives_pure (a := Constructor.unary op))

theorem operatorAfter_gives {op : UnaryOperator} (place : op.position = .after)
    (ends : EndsWord rest) :
    (standard now).operatorAfter.Gives (' ' :: (op.spelling.toList ++ rest)) (.unary op) rest := by
  have visible : Visible (op.spelling.toList ++ rest) := by
    cases op <;> · rintro c ⟨rfl⟩; rfl
  rw [operatorAfter_standard]
  refine (gives_blanks_space visible).bind ?_
  cases op with
  | isNotNull =>
    have found : (token "is not null" false).Gives ("IS NOT NULL".toList ++ rest) () rest := by
      have after : afterToken? "is not null".toList ("IS NOT NULL".toList ++ rest) = some rest := rfl
      simp only [Gives, token, ofOption, after, endsBefore_word ends, ↓reduceIte]
    exact (suffixRule_gives found).orElse
  | isNull =>
    have found : (token "is null" false).Gives ("IS NULL".toList ++ rest) () rest := by
      have after : afterToken? "is null".toList ("IS NULL".toList ++ rest) = some rest := rfl
      simp only [Gives, token, ofOption, after, endsBefore_word ends, ↓reduceIte]
    refine Misses.orElse ?_ (suffixRule_gives found).orElse
    rfl
  | _ => exact absurd place (by decide)

def prefixText (op : UnaryOperator) : List Char :=
  if op.isKeyword then (op.spelling ++ " ").toList else op.spelling.toList

theorem prefixRule_gives {term : Rule Expr} {t : String} {right spaced : Bool} {op : UnaryOperator}
    {mid text : List Char} {e : Expr} (found : (token t right).Gives cs () mid)
    (skipped : blanks.Gives mid spaced text) (operand : term.Gives text e rest) :
    (prefixRule term t right op).Gives cs (Expr.apply op e) rest := by
  have built : (build (.unary op) [e]).Gives rest (Expr.apply op e) rest := rfl
  exact found.bind (skipped.bind (operand.bind built))

theorem sign_gives {t : String} {c : Char} (spelling : t.toList = [c]) (shown : c ≠ ' ')
    (letter : c.isAlpha = false) (text : List Char) :
    (token t false).Gives (c :: text) () text := by
  have after : afterToken? t.toList (c :: text) = some text := by
    rw [spelling, afterToken?.eq_4 c [] c text shown, if_pos rfl, afterToken?]
  have ends : endsBefore t.toList false text = true := by
    rw [spelling]
    cases text <;> simp [endsBefore, letter]
  simp only [Gives, token, ofOption, after, ends, ↓reduceIte]

/-- Before its operand, the operator is read that is written. -/
theorem applied_gives {term : Rule Expr} {op : UnaryOperator} (place : op.position = .before)
    {text : List Char} {e : Expr} (visible : Visible text) (operand : term.Gives text e rest) :
    ((standard now).applied term).Gives (prefixText op ++ text) (Expr.apply op e) rest := by
  have spaced : blanks.Gives (' ' :: text) true text := gives_blanks_space visible
  have unspaced := gives_blanks_of_visible visible
  rw [applied_standard]
  refine Misses.orElse misses_failure (Misses.orElse misses_failure ?_)
  cases op with
  | existence =>
    have found : (token "exists" true).Gives (prefixText .existence ++ text) () (' ' :: text) := rfl
    exact (prefixRule_gives found spaced operand).orElse
  | not =>
    have found : (token "not" true).Gives (prefixText .not ++ text) () (' ' :: text) := rfl
    exact Misses.orElse rfl (prefixRule_gives found spaced operand).orElse
  | plus =>
    have found := @sign_gives "+" '+' rfl (by decide) (by decide) text
    exact Misses.orElse rfl (Misses.orElse rfl (prefixRule_gives found unspaced operand).orElse)
  | minus =>
    have found := @sign_gives "-" '-' rfl (by decide) (by decide) text
    exact Misses.orElse rfl (Misses.orElse rfl (Misses.orElse rfl
      (prefixRule_gives found unspaced operand).orElse))
  | bitwiseNot =>
    have found := @sign_gives "~" '~' rfl (by decide) (by decide) text
    exact Misses.orElse rfl (Misses.orElse rfl (Misses.orElse rfl (Misses.orElse rfl
      (prefixRule_gives found unspaced operand).orElse)))
  | isNull | isNotNull => exact absurd place (by decide)

def Unprefixed (cs : List Char) : Prop :=
  ¬Begins "exists" cs ∧ ¬Begins "not" cs ∧ ∀ c, cs.head? = some c → c ∉ ['+', '-', '~']

theorem isNameStart_of_isDigit {c : Char} (digit : c.isDigit = true) : isNameStart c = false := by
  have others : ∀ d ∈ ['_', '@', '#'], c ≠ d := by
    rintro d listed rfl
    have marks : ['_', '@', '#'].all (! Char.isDigit ·) = true := by decide
    exact absurd digit (by simpa using List.all_eq_true.1 marks c listed)
  simp [isNameStart, Text.isAlpha_of_isDigit digit, others]

theorem sign_misses {t : String} {d : Char} (spelling : t.toList = [d]) (shown : d ≠ ' ')
    (letter : d.isAlpha = false) (other : cs.head? ≠ some d) : (token t false).Misses cs := by
  refine token_misses_of_head spelling shown ?_
  intro c first same
  have plain : c.isAlpha = false := by
    rw [← isAlpha_toLower, same, isAlpha_toLower, letter]
  rw [Text.toLower_of_not_alpha plain, Text.toLower_of_not_alpha letter] at same
  rw [same] at first
  exact other first

theorem applied_misses_of_words (term : Rule Expr)
    (words : ∀ t ∈ ["exists", "not"], ∀ op, (prefixRule term t true op).Misses cs)
    (sign : ∀ c, cs.head? = some c → c ∉ ['+', '-', '~']) :
    ((standard now).applied term).Misses cs := by
  have signs : ∀ d ∈ ['+', '-', '~'], cs.head? ≠ some d := fun d listed first => sign d first listed
  rw [applied_standard]
  refine misses_failure.orElse_misses (misses_failure.orElse_misses
    (Misses.orElse_misses ?_ (Misses.orElse_misses ?_ (Misses.orElse_misses ?_
      (Misses.orElse_misses ?_ (Misses.orElse_misses ?_ misses_failure))))))
  · exact words "exists" (by decide) _
  · exact words "not" (by decide) _
  · exact (@sign_misses cs "+" '+' rfl (by decide) (by decide) (signs '+' (by decide))).bind
  · exact (@sign_misses cs "-" '-' rfl (by decide) (by decide) (signs '-' (by decide))).bind
  · exact (@sign_misses cs "~" '~' rfl (by decide) (by decide) (signs '~' (by decide))).bind

theorem applied_misses (term : Rule Expr) (unprefixed : Unprefixed cs) :
    ((standard now).applied term).Misses cs := by
  obtain ⟨existence, negation, sign⟩ := unprefixed
  refine applied_misses_of_words now term ?_ sign
  intro t listed op
  obtain rfl | rfl : t = "exists" ∨ t = "not" := by simpa using listed
  · exact (token_misses (by decide) existence).bind
  · exact (token_misses (by decide) negation).bind

end

section
variable {now : LocalTime} {text cs rest last : List Char} {c : Constructor}

theorem gives_token {t : String} {right : Bool} {u : Unit} (gives : (token t right).Gives cs u rest) :
    afterToken? t.toList cs = some rest ∧ endsBefore t.toList right rest = true := by
  simp only [Gives, token, ofOption] at gives
  split at gives
  · rename_i after found
    split at gives
    · rename_i ends
      cases gives
      exact ⟨found, ends⟩
    · cases gives
  · cases gives

theorem gives_operatorAfter (gives : (standard now).operatorAfter.Gives cs c rest) :
    ∃ op : UnaryOperator, c = .unary op ∧ op.position = .after ∧ rest.length < cs.length := by
  have rows : ∀ row ∈ suffixes, row.2.position = .after ∧ 0 < row.1.toList.length := by decide
  rw [operatorAfter_standard] at gives
  obtain ⟨spaced, mid, skipped, gives⟩ := gives_bind gives
  cases skipped
  obtain ⟨rule, listed, gives⟩ := gives_firstOf gives
  obtain known | failing := List.mem_append.mp listed
  · obtain ⟨row, member, rfl⟩ := List.mem_map.mp known
    unfold suffixRule at gives
    split at gives
    · obtain ⟨_, _, found, gives⟩ := gives_bind gives
      cases gives
      have length := afterToken?_length (gives_token found).1
      have shorter := Text.skipBlank_length_le cs
      have positive := (rows row member).2
      exact ⟨row.2, rfl, (rows row member).1, by omega⟩
    · cases gives
  · have same : rule = failure := by simpa using failing
    rw [same] at gives
    cases gives

theorem gives_applied {term : Rule Expr} {e : Expr}
    (gives : ((standard now).applied term).Gives cs e rest) :
    ∃ op operand start, e = .apply op operand ∧ op.position = .before ∧
      term.Gives start operand rest ∧ (op = .not → ∃ mid, (token "not" true).Gives cs () mid) := by
  have rows : ∀ row ∈ prefixes, row.2.2.position = .before ∧
      (row.2.2 = .not → row = ("not", true, .not)) := by decide
  rw [applied_standard] at gives
  obtain ⟨rule, listed, gives⟩ := gives_firstOf gives
  obtain rfl | rfl | known : rule = failure ∨ rule = failure ∨
      rule ∈ prefixes.map (fun row => prefixRule term row.1 row.2.1 row.2.2) := by
    simpa using listed
  · cases gives
  · cases gives
  · obtain ⟨row, member, rfl⟩ := List.mem_map.mp known
    obtain ⟨_, mid, found, gives⟩ := gives_bind gives
    obtain ⟨_, start, -, gives⟩ := gives_bind gives
    obtain ⟨operand, _, read, gives⟩ := gives_bind gives
    cases gives
    refine ⟨row.2.2, operand, start, rfl, (rows row member).1, read, ?_⟩
    intro negation
    rw [(rows row member).2 negation] at found
    exact ⟨mid, found⟩

theorem token_gives_append {first second t : String} {right : Bool} {d : Char} {ds : List Char}
    (spelling : t.toList = first.toList ++ ' ' :: second.toList) (word : second.toList = d :: ds)
    (visible : d ≠ ' ') (found : (token first true).Gives text () rest)
    (next : (token second right).Gives (Text.skipBlank rest) () last) :
    (token t right).Gives text () last := by
  obtain ⟨begun, spaced⟩ := gives_token found
  obtain ⟨after, ends⟩ := gives_token next
  have whole : afterToken? t.toList text = some last := by
    rw [spelling, afterToken?_append, begun, Option.bind_some]
    cases rest with
    | nil =>
      rw [word] at after
      exact absurd ((afterToken?.eq_5 d ds visible).symm.trans after) (by simp)
    | cons c rest =>
      have blank : Text.isBlank c = true := by simpa [endsBefore] using (Bool.and_eq_true_iff.1 spaced).2
      have skipped : Text.skipBlank (c :: rest) = Text.skipBlank rest :=
        List.dropWhile_cons_of_pos blank
      rw [afterToken?, if_pos blank, ← after, skipped]
  have closed : endsBefore t.toList right last = true := by
    have final : t.toList.getLast? = second.toList.getLast? := by
      rw [spelling, word, List.getLast?_append, List.getLast?_cons_cons, List.getLast?_cons,
        Option.some_or]
    unfold endsBefore at ends ⊢
    rwa [final]
  simp only [Gives, token, ofOption, whole, closed, ↓reduceIte]

theorem gives_infixes {spaced : Bool}
    (gives : (firstOf (infixes.map fun row => infixRule spaced row.1 row.2.1 row.2.2)).Gives text c
      rest) :
    ∃ row ∈ infixes, c = .binary row.2.2 ∧ (token row.1 row.2.1).Gives text () rest ∧
      (row.2.1 = true → spaced = true) := by
  obtain ⟨rule, listed, gives⟩ := gives_firstOf gives
  obtain ⟨row, member, rfl⟩ := List.mem_map.mp listed
  unfold infixRule at gives
  split at gives
  · cases gives
  · rename_i placed
    obtain ⟨_, _, found, gives⟩ := gives_bind gives
    cases gives
    refine ⟨row, member, rfl, found, ?_⟩
    intro bounded
    cases spaced with
    | true => rfl
    | false => exact absurd (by rw [bounded]; rfl) placed

theorem not_begins_null_of_suffixes_miss {first : String} {op : UnaryOperator} {t : String}
    (absent : ∀ rule ∈ suffixes.map (fun row => suffixRule true row.1 row.2), rule.Misses text)
    (row : (t, op) ∈ suffixes) (spelling : t.toList = first.toList ++ ' ' :: "null".toList)
    (found : (token first true).Gives text () rest) : ¬Begins "null" (Text.skipBlank rest) := by
  intro begins
  have null : (keyword "null").Gives (Text.skipBlank rest) () _ :=
    keyword_gives_of_begins (by decide) begins
  have longer : (token t false).Gives text () _ :=
    token_gives_append spelling rfl (by decide) found null
  exact (suffixRule_gives longer).not_misses (absent _ (List.mem_map_of_mem row))

theorem not_negated_of_infixes_give {op : BinaryOperator}
    (gives : (firstOf (infixes.map fun row => infixRule true row.1 row.2.1 row.2.2)).Gives text
      (.binary op) rest)
    (found : (token "is" true).Gives text () rest) (plain : op = .is) :
    ¬∃ last, (token "not" true).Gives (Text.skipBlank rest) () last := by
  rintro ⟨last, negated⟩
  have longer : (token "is not" true).Gives text () last :=
    token_gives_append rfl rfl (by decide) found negated
  have noLike : (token "not like" true).Misses text := by
    have isKeyword : IsKeyword "is" := by decide
    obtain ⟨front, rfl, lower⟩ := afterToken?_eq_some isKeyword.visible (gives_token found).1
    refine @token_misses_of_head _ "not like" true 'n' "ot like".toList rfl (by decide) ?_
    intro c first same
    cases front with
    | nil => cases lower
    | cons d front =>
      obtain rfl : d = c := by simpa using first
      have letter : d.toLower = 'i' := (List.cons.inj lower).1
      rw [letter] at same
      exact absurd same (by decide)
  have negation : (firstOf (infixes.map fun row => infixRule true row.1 row.2.1 row.2.2)).Gives text
      (.binary .isNot) last :=
    Misses.orElse (infixRule_misses noLike) (Gives.orElse (longer.bind gives_pure))
  have same := (negation.unique gives).1
  rw [plain] at same
  cases same

/-- Where a test for equality was read, its longer forms do not match. -/
theorem gives_operatorBetween (gives : (standard now).operatorBetween.Gives cs c rest) :
    ∃ op : BinaryOperator, c = .binary op ∧ op ≠ .between ∧
      ((standard now).operatorAfter.Misses cs →
        op = .is ∨ op = .isNot → ¬Begins "null" (Text.skipBlank rest)) ∧
      (op = .is → ¬∃ last, (token "not" true).Gives (Text.skipBlank rest) () last) := by
  have rows : ∀ row ∈ infixes, row.2.2 ≠ .between ∧ (row.2.2 = .is → row = ("is", true, .is)) ∧
      (row.2.2 = .isNot → row = ("is not", true, .isNot)) := by decide
  rw [operatorBetween_standard] at gives
  obtain ⟨spaced, mid, skipped, gives⟩ := gives_bind gives
  obtain ⟨row, member, rfl, found, placed⟩ := gives_infixes gives
  obtain ⟨other, isRow, isNotRow⟩ := rows row member
  refine ⟨row.2.2, rfl, other, ?_, ?_⟩
  · intro noneAfter
    rw [operatorAfter_standard] at noneAfter
    obtain stuck | ⟨spaced', mid', skipped', noneAfter⟩ := misses_bind noneAfter
    · exact absurd stuck skipped.not_misses
    obtain ⟨rfl, rfl⟩ := skipped.unique skipped'
    have absent := fun rule listed => misses_of_firstOf noneAfter rule (List.mem_append_left _ listed)
    rintro (plain | negated)
    · rw [isRow plain] at found placed
      obtain rfl := placed rfl
      exact not_begins_null_of_suffixes_miss absent
        (by decide : ("is null", .isNull) ∈ suffixes) rfl found
    · rw [isNotRow negated] at found placed
      obtain rfl := placed rfl
      exact not_begins_null_of_suffixes_miss absent
        (by decide : ("is not null", .isNotNull) ∈ suffixes) rfl found
  · intro plain
    rw [isRow plain] at found placed gives
    obtain rfl := placed rfl
    exact not_negated_of_infixes_give gives found rfl

end

end SqlFragment.Grammar
