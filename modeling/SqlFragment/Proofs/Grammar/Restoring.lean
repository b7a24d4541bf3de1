import SqlFragment.Proofs.Grammar.Parsed

/-
Reading what was written: the rules for expressions, terms and their parts on the texts of
expressions.
-/
namespace SqlFragment.Grammar
open Rule

section
variable {cs : List Char}

theorem not_begins_of_mark {w : String} {c : Char} (keyword : IsKeyword w)
    (mark : isNamePart c = false) (tail : List Char) : ¬Begins w (c :: tail) := by
  intro begins
  rw [Begins, firstWord, List.takeWhile_cons_of_neg (by simp [mark])] at begins
  exact keyword.1 begins.symm

theorem number_misses (free : ∀ d, (Double.takeSign cs).2.head? = some d → d.isDigit = false) :
    number.Misses cs := by
  have empty : ((Double.takeSign cs).2.takeWhile Char.isDigit).isEmpty = true := by
    cases body : (Double.takeSign cs).2 with
    | nil => rfl
    | cons d tail => simp [free d (by rw [body]; rfl)]
  simp only [Misses, number, ofOption, empty, ↓reduceIte]

theorem takeSign_of_unsigned {c : Char} (unsigned : c ∉ ['+', '-', '~']) (tail : List Char) :
    Double.takeSign (c :: tail) = (false, c :: tail) := by
  refine Double.takeSign.eq_3 (c :: tail) ?_ ?_ <;>
  · rintro more ⟨rfl, -⟩
    exact absurd unsigned (by decide)

theorem caseOf_misses {expression : Rule Expr} (other : ¬Begins "case" cs) :
    (caseOf expression).Misses cs :=
  gives_remaining.bind_misses (token_misses (by decide) other).bind

theorem timestamp_misses {now : LocalTime} (other : cs.head? ≠ some '#') :
    (timestamp now).Misses cs := gives_remaining.bind_misses (misses_char other).bind

theorem text_misses (other : cs.head? ≠ some '\'') : text.Misses cs :=
  gives_remaining.bind_misses (misses_char other).bind

theorem bytes_misses (other : ∀ c ∈ ['X', 'x'], cs.head? = some c → cs.tail.head? ≠ some '\'') :
    bytes.Misses cs := by
  refine gives_remaining.bind_misses ?_
  cases cs with
  | nil => rfl
  | cons c tail =>
    by_cases upper : c = 'X'
    · subst upper
      exact (gives_char 'X').orElse.bind_misses (misses_char (other 'X' (by decide) rfl)).bind
    have notUpper : (char 'X').Misses (c :: tail) := misses_char (by simpa using upper)
    by_cases lower : c = 'x'
    · subst lower
      exact (notUpper.orElse (gives_char 'x')).bind_misses
        (misses_char (other 'x' (by decide) rfl)).bind
    · exact (notUpper.orElse_misses (misses_char (by simpa using lower))).bind

theorem constant_misses (other : ∀ w ∈ ["true", "false", "null"], ¬Begins w cs) :
    constant.Misses cs := by
  have misses : ∀ w ∈ ["true", "false", "null"], (keyword w).Misses cs := by
    intro w mem
    refine token_misses ?_ (other w mem)
    have keywords : ∀ w ∈ ["true", "false", "null"], IsKeyword w := by decide
    exact keywords w mem
  exact (misses "true" (by decide)).seqRight.orElse_misses
    ((misses "false" (by decide)).seqRight.orElse_misses (misses "null" (by decide)).seqRight)

end

section
variable (now : LocalTime) {expression term : Rule Expr} {cs mid rest : List Char} {e : Expr}

/-- An operand that operators may follow: a number, or a text that is neither a number nor begins
with an operator. -/
def BaseGives (expression : Rule Expr) (cs : List Char) (e : Expr) (rest : List Char) : Prop :=
  number.Gives cs e rest ∨
    number.Misses cs ∧ Unprefixed cs ∧ ((standard now).primary expression).Gives cs e rest

variable {now}

theorem operatorsAfter_none (misses : (standard now).operatorAfter.Misses rest) :
    ((standard now).operatorsAfter e).Gives rest e rest := Gives.bind misses.many gives_pure

theorem operatorsAfter_one {op : UnaryOperator}
    (given : (standard now).operatorAfter.Gives mid (.unary op) rest)
    (misses : (standard now).operatorAfter.Misses rest) :
    ((standard now).operatorsAfter e).Gives mid (.apply op e) rest := by
  obtain ⟨_, -, -, shorter⟩ := gives_operatorAfter given
  have built : (build (.unary op) [e]).Gives rest (.apply op e) rest := rfl
  refine Gives.bind (given.many shorter misses.many) ?_
  rw [List.foldlM_cons]
  exact built.bind gives_pure

theorem termOf_gives {whole : Expr} (base : BaseGives now expression cs e mid)
    (after : ((standard now).operatorsAfter e).Gives mid whole rest) :
    ((standard now).termOf expression term).Gives cs whole rest := by
  obtain number | ⟨notNumber, unprefixed, primary⟩ := base
  · exact (number.bind after).orElse
  · refine Misses.orElse notNumber.bind ((applied_misses now term unprefixed).orElse ?_)
    exact (primary.bind after).orElse

theorem termOf_before {op : UnaryOperator} {operand : List Char} (place : op.position = .before)
    (notNumber : number.Misses (prefixText op ++ operand)) (visible : Visible operand)
    (read : term.Gives operand e rest) :
    ((standard now).termOf expression term).Gives (prefixText op ++ operand) (.apply op e) rest :=
  Misses.orElse notNumber.bind (applied_gives now place visible read).orElse

theorem expressionOf_term (read : term.Gives cs e rest)
    (misses : (standard now).operatorBetween.Misses rest) :
    ((standard now).expressionOf term expression).Gives cs e rest :=
  read.bind ((Misses.bind misses).optional.bind gives_pure)

theorem expressionOf_combine {op : BinaryOperator} {l r : Expr} {right : List Char}
    (first : term.Gives cs l (' ' :: (op.spelling.toList ++ ' ' :: right))) (other : op ≠ .between)
    (follows : Follows op right) (second : expression.Gives right r rest) :
    ((standard now).expressionOf term expression).Gives cs (.combine op l r) rest := by
  have operator := operatorBetween_gives now other follows
  have built : (build (.binary op) [l, r]).Gives rest (.combine op l r) rest := rfl
  refine first.bind (Gives.bind (Gives.optional (operator.bind
    ((gives_blanks_space follows.1).bind (second.bind gives_pure)))) ?_)
  exact built

end

/-- What follows the text of an expression: no operator, and nothing that belongs to a word. -/
def Closes (rest : List Char) : Prop := Ends rest ∧ Stops rest

def startsOperand (c : Char) : Bool := isNamePart c || ['\'', ':', '(', '+', '-', '~'].contains c

def Opens (text : List Char) : Prop := ∃ c tail, text = c :: tail ∧ startsOperand c = true

section
variable (now : LocalTime) (text : List Char) (e : Expr)

/-- The text is read as the expression, wherever it is closed. A level is deep enough when it is
deeper than the text is long. -/
def ReadsExpression : Prop :=
  ∀ ⦃depth rest⦄, text.length < depth → Closes rest →
    ((standard now).level depth).expression.Gives (text ++ rest) e rest

def ReadsTerm : Prop :=
  ∀ ⦃depth rest⦄, text.length < depth → Ends rest → (standard now).operatorAfter.Misses rest →
    ((standard now).level depth).term.Gives (text ++ rest) e rest

def ReadsBase : Prop :=
  ∀ ⦃depth rest⦄, text.length ≤ depth → Ends rest →
    BaseGives now ((standard now).level depth).expression (text ++ rest) e rest

end

section
variable {now : LocalTime} {text left right rest : List Char} {e l r : Expr}

theorem visible_of_opens (opens : Opens text) (rest : List Char) : Visible (text ++ rest) := by
  obtain ⟨c, tail, rfl, starts⟩ := opens
  rintro d ⟨rfl⟩
  simp only [startsOperand, Bool.or_eq_true, List.contains_iff_mem] at starts
  obtain part | mark := starts
  · cases blank : Text.isBlank c with
    | false => rfl
    | true => exact absurd part (by simp [isNamePart_of_isBlank blank])
  · have marks : ['\'', ':', '(', '+', '-', '~'].all (! Text.isBlank ·) = true := by decide
    simpa using List.all_eq_true.1 marks c mark

theorem ReadsBase.term (reads : ReadsBase now text e) : ReadsTerm now text e := by
  intro depth rest short ends misses
  cases depth with
  | zero => exact absurd short (Nat.not_lt_zero _)
  | succ depth =>
    exact termOf_gives (reads (Nat.le_of_lt_succ short) ends) (operatorsAfter_none misses)

theorem ReadsBase.after {op : UnaryOperator} (place : op.position = .after)
    (reads : ReadsBase now text e) :
    ReadsTerm now (text ++ ' ' :: op.spelling.toList) (.apply op e) := by
  intro depth rest short ends misses
  cases depth with
  | zero => exact absurd short (Nat.not_lt_zero _)
  | succ depth =>
    rw [List.length_append] at short
    have operator := operatorAfter_gives now place ends.endsWord
    have base := @reads depth (' ' :: (op.spelling.toList ++ rest)) (by omega)
      (ends_cons (by decide) _)
    rw [List.append_assoc, List.cons_append]
    exact termOf_gives base (operatorsAfter_one operator misses)

/-- An operator before an operand is read with it; signs are not taken for those of numbers. -/
theorem ReadsTerm.before {op : UnaryOperator} (place : op.position = .before) (opens : Opens text)
    (unsigned : op = .plus ∨ op = .minus → ∀ c, text.head? = some c → c.isDigit = false)
    (reads : ReadsTerm now text e) : ReadsTerm now (prefixText op ++ text) (.apply op e) := by
  intro depth rest short ends misses
  cases depth with
  | zero => exact absurd short (Nat.not_lt_zero _)
  | succ depth =>
    rw [List.length_append] at short
    have positive : 0 < (prefixText op).length := by cases op <;> decide
    have read := reads (by omega : text.length < depth) ends misses
    rw [List.append_assoc]
    refine termOf_before place (number_misses ?_) (visible_of_opens opens rest) read
    intro d first
    cases op with
    | not | existence | bitwiseNot =>
      cases first
      rfl
    | plus | minus =>
      obtain ⟨c, tail, rfl, -⟩ := opens
      cases first
      exact unsigned (by decide) _ rfl
    | isNull | isNotNull => cases place

theorem ReadsTerm.expression (reads : ReadsTerm now text e) : ReadsExpression now text e := by
  intro depth rest short closes
  cases depth with
  | zero => exact absurd short (Nat.not_lt_zero _)
  | succ depth =>
    have read := reads short closes.1 (operatorAfter_misses_of_stops now closes.2)
    exact expressionOf_term read (operatorBetween_misses_of_stops now closes.2)

theorem ReadsTerm.combine {op : BinaryOperator} (other : op ≠ .between)
    (first : ReadsTerm now left l) (second : ReadsExpression now right r) (opens : Opens right)
    (notNull : op = .is ∨ op = .isNot → ¬Begins "null" right)
    (notNegated : op = .is → ¬Begins "not" right) :
    ReadsExpression now (left ++ ' ' :: (op.spelling.toList ++ ' ' :: right)) (.combine op l r) := by
  intro depth rest short closes
  cases depth with
  | zero => exact absurd short (Nat.not_lt_zero _)
  | succ depth =>
    simp only [List.length_append, List.length_cons] at short
    have follows : Follows op (right ++ rest) := by
      refine ⟨visible_of_opens opens rest, ?_, ?_⟩
      · exact fun equality begins =>
          notNull equality ((begins_append "null" right closes.1.endsWord).1 begins)
      · exact fun equality begins =>
          notNegated equality ((begins_append "not" right closes.1.endsWord).1 begins)
    have read := @first (depth + 1) (' ' :: (op.spelling.toList ++ ' ' :: (right ++ rest)))
      (by omega) (ends_cons (by decide) _) (operatorAfter_misses now follows)
    have written : left ++ ' ' :: (op.spelling.toList ++ ' ' :: right) ++ rest =
        left ++ ' ' :: (op.spelling.toList ++ ' ' :: (right ++ rest)) := by simp
    rw [written]
    exact expressionOf_combine read other follows (second (by omega) closes)

end

section
variable {now : LocalTime} {rest : List Char} {e : Expr}

/-- The text of an expression is read as its enclosed form. -/
structure Restored (now : LocalTime) (e : Expr) : Prop where
  opens : Opens e.display.toList
  reads : ReadsExpression now e.display.toList e.enclose

theorem closes_comma (rest : List Char) : Closes (',' :: rest) :=
  ⟨ends_cons (by decide) rest, by rintro c ⟨rfl⟩; decide⟩

theorem closes_parenthesis (rest : List Char) : Closes (')' :: rest) :=
  ⟨ends_cons (by decide) rest, by rintro c ⟨rfl⟩; decide⟩

def itemsTail (es : List Expr) (rest : List Char) : List Char :=
  (es.flatMap fun e => ", ".toList ++ e.display.toList) ++ ')' :: rest

theorem closes_itemsTail (es : List Expr) (rest : List Char) : Closes (itemsTail es rest) := by
  cases es with
  | nil => exact closes_parenthesis rest
  | cons e es => exact closes_comma _

theorem visible_itemsTail (es : List Expr) (rest : List Char) : Visible (itemsTail es rest) := by
  cases es <;>
  · rintro c ⟨rfl⟩
    rfl

theorem listItem_gives {depth : Nat} {spaced : Bool} {cs : List Char} (restored : Restored now e)
    (short : e.display.toList.length < depth) (es : List Expr) (rest : List Char)
    (skipped : blanks.Gives cs spaced (e.display.toList ++ itemsTail es rest)) :
    (listItem ((standard now).level depth).expression).Gives cs e.enclose (itemsTail es rest) :=
  skipped.bind ((restored.reads short (closes_itemsTail es rest)).bind
    ((gives_blanks_of_visible (visible_itemsTail es rest)).bind gives_pure))

theorem items_give {depth : Nat} {es : List Expr} (restored : ∀ e ∈ es, Restored now e)
    (short : (itemsTail es []).length ≤ depth) (rest : List Char) :
    (Rule.many (nextItem ((standard now).level depth).expression)).Gives (itemsTail es rest)
      (es.map Expr.enclose) (')' :: rest) := by
  induction es with
  | nil => exact Misses.many (Misses.seqRight (misses_char (by simp [itemsTail])))
  | cons e es ih =>
    obtain ⟨first, later⟩ := List.forall_mem_cons.1 restored
    have length : (itemsTail (e :: es) []).length =
        2 + e.display.toList.length + (itemsTail es []).length := by
      simp [itemsTail]
      omega
    have written : itemsTail (e :: es) rest =
        ',' :: ' ' :: (e.display.toList ++ itemsTail es rest) := by simp [itemsTail]
    have tail := ih later (by omega)
    have read := listItem_gives first (by omega : e.display.toList.length < depth) es rest
      (gives_blanks_space (visible_of_opens first.opens _))
    rw [written]
    refine Gives.many ((gives_char ',').seqRight read) ?_ tail
    simp only [List.length_cons, List.length_append]
    omega

theorem expressions_give {depth : Nat} {es : List Expr} (restored : ∀ e ∈ es, Restored now e)
    (short : (", ".intercalate (es.map Expr.display)).toList.length < depth) (rest : List Char) :
    (expressions ((standard now).level depth).expression).Gives
      ((", ".intercalate (es.map Expr.display)).toList ++ ')' :: rest) (es.map Expr.enclose) rest := by
  cases es with
  | nil =>
    refine Gives.orElse ?_
    exact (gives_blanks_of_visible (by rintro c ⟨rfl⟩; rfl)).bind ((gives_char ')').bind gives_pure)
  | cons e es =>
    obtain ⟨first, later⟩ := List.forall_mem_cons.1 restored
    have written : (", ".intercalate ((e :: es).map Expr.display)).toList ++ ')' :: rest =
        e.display.toList ++ itemsTail es rest := by
      rw [List.map_cons, Text.toList_intercalate_cons, itemsTail, List.flatMap_map, List.append_assoc]
    have length : (", ".intercalate ((e :: es).map Expr.display)).toList.length + 1 =
        e.display.toList.length + (itemsTail es []).length := by
      rw [List.map_cons, Text.toList_intercalate_cons, itemsTail, List.flatMap_map,
        List.length_append, List.length_append, List.length_singleton]
      omega
    have some : 0 < e.display.toList.length := by
      obtain ⟨c, tail, text, -⟩ := first.opens
      rw [text]
      exact Nat.succ_pos _
    have visible := gives_blanks_of_visible (visible_of_opens first.opens (itemsTail es rest))
    have unclosed : (char ')').Misses (e.display.toList ++ itemsTail es rest) := by
      obtain ⟨c, tail, text, starts⟩ := first.opens
      refine misses_char ?_
      rw [text]
      rintro ⟨rfl⟩
      exact absurd starts (by decide)
    have tail : 0 < (itemsTail es []).length := by
      rw [itemsTail, List.length_append]
      exact Nat.lt_add_left _ Nat.one_pos
    rw [written]
    refine Misses.orElse (visible.bind_misses unclosed.bind) ?_
    refine (listItem_gives first (by omega) es rest visible).bind
      (Gives.bind (items_give later (by omega) rest) ((gives_char ')').bind ?_))
    exact gives_pure

end

section
variable {now : LocalTime} {expression : Rule Expr} {c : Char} {tail rest : List Char} {e : Expr}

/-- Neither a number nor an operator comes first, so the rules for the primary parts are tried. -/
theorem reaches_primary (unsigned : c ∉ ['+', '-', '~']) (digit : c.isDigit = false)
    (noExistence : ¬Begins "exists" (c :: tail)) (noNegation : ¬Begins "not" (c :: tail)) :
    number.Misses (c :: tail) ∧ Unprefixed (c :: tail) := by
  refine ⟨number_misses ?_, noExistence, noNegation, ?_⟩
  · rw [takeSign_of_unsigned unsigned]
    rintro d ⟨rfl⟩
    exact digit
  · rintro d ⟨rfl⟩
    exact unsigned

theorem baseGives_of_primary (unsigned : c ∉ ['+', '-', '~']) (digit : c.isDigit = false)
    (noExistence : ¬Begins "exists" (c :: tail)) (noNegation : ¬Begins "not" (c :: tail))
    (gives : ((standard now).primary expression).Gives (c :: tail) e rest) :
    BaseGives now expression (c :: tail) e rest := by
  obtain ⟨notNumber, unprefixed⟩ := reaches_primary unsigned digit noExistence noNegation
  exact .inr ⟨notNumber, unprefixed, gives⟩

theorem baseGives_of_mark (mark : isNamePart c = false) (unsigned : c ∉ ['+', '-', '~'])
    (gives : (firstOf [text, parameter, group expression]).Gives (c :: tail) e rest) :
    BaseGives now expression (c :: tail) e rest := by
  have other : ∀ {w}, IsKeyword w → ¬Begins w (c :: tail) := fun keyword =>
    not_begins_of_mark keyword mark tail
  have digit : c.isDigit = false := by
    simp only [isNamePart, Bool.or_eq_false_iff] at mark
    exact mark.2
  have noName : name.Misses (c :: tail) := by
    refine name_misses ?_
    rintro d ⟨rfl⟩
    simp only [isNamePart, Bool.or_eq_false_iff] at mark
    exact mark.1
  have noBytes : bytes.Misses (c :: tail) := by
    refine bytes_misses ?_
    rintro d opening ⟨rfl⟩
    have letters : ['X', 'x'].all isNamePart = true := by decide
    exact absurd (List.all_eq_true.1 letters c opening) (by simp [mark])
  refine baseGives_of_primary unsigned digit (other (by decide)) (other (by decide)) ?_
  refine (caseOf_misses (other (by decide))).orElse ((timestamp_misses ?_).orElse
    (noBytes.orElse ?_))
  · rintro ⟨rfl⟩
    exact absurd mark (by decide)
  have noConstant : constant.Misses (c :: tail) := constant_misses fun w listed =>
    other (by revert w; decide)
  obtain gives | ⟨noText, gives⟩ := gives_orElse gives
  · exact gives.orElse
  refine noText.orElse (noConstant.orElse (Misses.orElse noName.bind ?_))
  obtain gives | ⟨noParameter, gives⟩ := gives_orElse gives
  · exact gives.orElse
  exact noParameter.orElse (Misses.orElse noName.bind gives)

theorem unsigned_of_isNameStart (start : isNameStart c = true) :
    c ∉ ['+', '-', '~'] ∧ c.isDigit = false := by
  constructor
  · intro sign
    have signs : ['+', '-', '~'].all (! isNameStart ·) = true := by decide
    exact absurd start (by simpa using List.all_eq_true.1 signs c sign)
  · cases digit : c.isDigit with
    | false => rfl
    | true => exact absurd start (by simp [isNameStart_of_isDigit digit])

/-- Where the text begins with a name that opens neither a case distinction nor a timestamp, it is
a function or a path. -/
theorem primary_of_name {n : String} (named : isName n = true) (unreserved : Unreserved n)
    (ends : EndsWord tail) (unquoted : tail.head? ≠ some '\'')
    (noCase : (caseOf expression).Misses (n.toList ++ tail))
    (noTimestamp : (timestamp now).Misses (n.toList ++ tail))
    (gives : (function expression).Gives (n.toList ++ tail) e rest ∨
      (function expression).Misses (n.toList ++ tail) ∧ path.Gives (n.toList ++ tail) e rest) :
    ((standard now).primary expression).Gives (n.toList ++ tail) e rest := by
  have noConstant : constant.Misses (n.toList ++ tail) := constant_misses fun w listed begins =>
    unreserved w listed ((begins_append _ _ ends).1 begins)
  obtain ⟨c, more, chars, start, parts⟩ := isName_cons named
  have noMark : ∀ d, isNameStart d = false → c ≠ d := by
    rintro d other rfl
    exact absurd start (by simp [other])
  have noBytes : bytes.Misses (n.toList ++ tail) := by
    refine bytes_misses fun d _ _ => ?_
    rw [chars, List.cons_append, List.tail_cons]
    cases more with
    | nil => exact unquoted
    | cons d more =>
      have part := parts d (by rw [chars]; simp)
      rintro ⟨rfl⟩
      exact absurd part (by decide)
  refine noCase.orElse (noTimestamp.orElse (noBytes.orElse (Misses.orElse ?_
    (noConstant.orElse ?_))))
  · exact text_misses (by simpa [chars] using noMark '\'' (by decide))
  obtain gives | ⟨noFunction, gives⟩ := gives
  · exact gives.orElse
  refine noFunction.orElse (Misses.orElse ?_ gives.orElse)
  exact (misses_char (by simpa [chars] using noMark ':' (by decide))).bind

theorem baseGives_of_name {n : String} (named : isName n = true) (plain : plainName n = true)
    (unreserved : Unreserved n) (ends : EndsWord tail) (unquoted : tail.head? ≠ some '\'')
    (gives : (function expression).Gives (n.toList ++ tail) e rest ∨
      (function expression).Misses (n.toList ++ tail) ∧ path.Gives (n.toList ++ tail) e rest) :
    BaseGives now expression (n.toList ++ tail) e rest := by
  have absent : ∀ {w}, w ∈ ["not", "exists", "case"] → ¬Begins w (n.toList ++ tail) :=
    fun listed begins =>
      not_begins_of_plain named plain listed ((begins_append _ _ ends).1 begins)
  have noExistence := absent (by decide : "exists" ∈ _)
  have noNegation := absent (by decide : "not" ∈ _)
  obtain ⟨c, more, chars, start, -⟩ := isName_cons named
  have noTimestamp : (timestamp now).Misses (n.toList ++ tail) := by
    refine timestamp_misses ?_
    rw [chars]
    rintro ⟨rfl⟩
    simp [plainName, chars] at plain
  have gives := primary_of_name named unreserved ends unquoted
    (caseOf_misses (absent (by decide : "case" ∈ _))) noTimestamp gives
  obtain ⟨unsigned, digit⟩ := unsigned_of_isNameStart start
  rw [chars, List.cons_append] at gives noExistence noNegation ⊢
  exact baseGives_of_primary unsigned digit noExistence noNegation gives

end

section
variable {now : LocalTime} {expression : Rule Expr} {v : Value} {rest : List Char} {e : Expr}

theorem baseGives_constant (named : v = .boolean true ∨ v = .boolean false ∨ v = .null)
    (ends : EndsWord rest) :
    BaseGives now expression (v.display.toList ++ rest) (.value v) rest := by
  have absent : ∀ w ∈ ["exists", "not", "case"], ¬Begins w (v.display.toList ++ rest) := by
    intro w listed
    rw [begins_append w _ ends]
    revert w
    obtain rfl | rfl | rfl := named <;> decide
  have gives := constant_gives named ends
  obtain ⟨c, d, tail, text, letter, unquoted⟩ : ∃ c d tail, v.display.toList = c :: d :: tail ∧
      c ∈ ['t', 'f', 'n'] ∧ d ≠ '\'' := by
    obtain rfl | rfl | rfl := named
    · exact ⟨'t', 'r', _, rfl, by decide⟩
    · exact ⟨'f', 'a', _, rfl, by decide⟩
    · exact ⟨'n', 'u', _, rfl, by decide⟩
  rw [text, List.cons_append, List.cons_append] at absent gives ⊢
  have letters : ['t', 'f', 'n'].all (fun d => decide (d ∉ ['+', '-', '~'] ∧ d.isDigit = false ∧
      d ≠ '#' ∧ d ≠ '\'')) = true := by decide
  obtain ⟨unsigned, digit, notHash, notQuote⟩ :=
    of_decide_eq_true (List.all_eq_true.1 letters c letter)
  refine baseGives_of_primary unsigned digit (absent "exists" (by decide)) (absent "not" (by decide))
    ?_
  exact (caseOf_misses (absent "case" (by decide))).orElse
    ((timestamp_misses (by simpa using notHash)).orElse
      ((bytes_misses fun _ _ _ => by simpa using unquoted).orElse
        ((text_misses (by simpa using notQuote)).orElse gives.orElse)))

theorem reaches_timestamp (expression : Rule Expr) (tail : List Char) :
    number.Misses ('#' :: tail) ∧ Unprefixed ('#' :: tail) ∧
      (caseOf expression).Misses ('#' :: tail) := by
  have absent : ∀ {w : String} {d : Char} {ds : List Char}, w.toList = d :: ds → '#'.toLower ≠ d →
      ¬Begins w ('#' :: tail) := fun word other => not_begins_of_head word other _
  obtain ⟨notNumber, unprefixed⟩ := @reaches_primary '#' tail (by decide) (by decide)
    (absent rfl (by decide)) (absent rfl (by decide))
  exact ⟨notNumber, unprefixed, caseOf_misses (absent rfl (by decide))⟩

theorem baseGives_timestamp {t t' : Timestamp}
    (read : Timestamp.Literal.read? now (t.format Timestamp.literalLayout).toList = some t')
    (rest : List Char) :
    BaseGives now expression ((Value.timestamp t).display.toList ++ rest) (.value (.timestamp t'))
      rest := by
  have gives : (timestamp now).Gives ((Value.timestamp t).display.toList ++ rest)
      (.value (.timestamp t')) rest := by
    rw [Gives, timestamp_apply, read]
  rw [display_timestamp] at gives ⊢
  obtain ⟨notNumber, unprefixed, noCase⟩ := reaches_timestamp expression
    ((t.format Timestamp.literalLayout).toList ++ '#' :: rest)
  exact .inr ⟨notNumber, unprefixed, noCase.orElse gives.orElse⟩

theorem baseGives_bytes (bs : List UInt8) (rest : List Char) :
    BaseGives now expression ((Value.binary bs).display.toList ++ rest) (.value (.binary bs)) rest := by
  have gives := bytes_gives bs rest
  have text : ("X'" ++ Text.hex bs ++ "'").toList ++ rest =
      'X' :: '\'' :: ((Text.hex bs).toList ++ '\'' :: rest) := by simp
  have absent : ∀ {w : String} {d : Char} {ds : List Char}, w.toList = d :: ds → 'X'.toLower ≠ d →
      ¬Begins w ('X' :: '\'' :: ((Text.hex bs).toList ++ '\'' :: rest)) :=
    fun word other => not_begins_of_head word other _
  rw [text] at gives
  rw [Value.display, text]
  refine baseGives_of_primary (by decide) (by decide) (absent rfl (by decide))
    (absent rfl (by decide)) ?_
  exact (caseOf_misses (absent rfl (by decide))).orElse
    ((timestamp_misses (by simp)).orElse gives.orElse)

theorem baseGives_text (s : String) (ends : Ends rest) :
    BaseGives now expression ((Value.text s).display.toList ++ rest) (.value (.text s)) rest := by
  have gives := text_gives s ends
  obtain ⟨tail, written⟩ : ∃ tail, (Text.quoted '\'' '\'' s).toList ++ rest = '\'' :: tail :=
    ⟨Text.doubled '\'' s.toList ++ '\'' :: rest, by simp [Text.quoted]⟩
  rw [written] at gives
  rw [Value.display, written]
  exact baseGives_of_mark (by decide) (by decide) gives.orElse

theorem readsBase_literal (whole : ∀ x, v ≠ .float x) (denoted : Denoted v) :
    ReadsBase now v.display.toList (.value v) := by
  intro depth rest _ ends
  cases v with
  | null => exact baseGives_constant (by simp) ends.endsWord
  | boolean b => exact baseGives_constant (by cases b <;> simp) ends.endsWord
  | integer n => exact .inl (number_gives n ends)
  | float x => exact absurd rfl (whole x)
  | text s => exact baseGives_text s ends
  | timestamp t => exact baseGives_timestamp (Timestamp.Literal.read?_format denoted now) rest
  | binary bs => exact baseGives_bytes bs rest

theorem readsBase_parameter {n : String} (named : IsParameter n) :
    ReadsBase now (Expr.parameter n).display.toList (.parameter n) := by
  intro depth rest _ ends
  have gives := parameter_gives named ends
  have written : (":" ++ n).toList ++ rest = ':' :: (n.toList ++ rest) := by simp
  rw [written] at gives
  rw [Expr.display, written]
  refine baseGives_of_mark (by decide) (by decide) (Misses.orElse ?_ gives.orElse)
  exact text_misses (by simp)

theorem readsBase_column {p : Path} (isPath : IsPath p) (unreserved : ∀ n ∈ p.head?, Unreserved n)
    (plain : ∀ n ∈ p, plainName n = true) :
    ReadsBase now (Expr.column p).display.toList (.column p) := by
  intro depth rest _ ends
  have gives := path_gives isPath ends
  obtain ⟨some, -, named⟩ := isPath
  obtain ⟨n, names, rfl⟩ := List.exists_cons_of_ne_nil some
  have endsWord := endsWord_dotted names ends.endsWord
  have first : (dotted names ++ rest).head? ≠ Option.some '(' ∧
      (dotted names ++ rest).head? ≠ Option.some '\'' := by
    cases names with
    | nil => exact ⟨ends.head_ne (by decide), ends.head_ne (by decide)⟩
    | cons m names => simp [dotted]
  have isName := named n List.mem_cons_self
  rw [display_cons_toList, List.append_assoc] at gives
  rw [Expr.display, display_cons_toList, List.append_assoc]
  refine baseGives_of_name isName (plain n List.mem_cons_self) (unreserved n rfl) endsWord first.2
    (.inr ⟨?_, gives⟩)
  exact (name_gives isName endsWord).bind_misses (misses_char first.1).bind

def groupOf : List Expr → Expr
  | [e] => .parenthesis e
  | es => .parenthesis (.commaList es)

theorem readsBase_group {es : List Expr} (restored : ∀ e ∈ es, Restored now e) :
    ReadsBase now ('(' :: ((", ".intercalate (es.map Expr.display)).toList ++ [')']))
      (groupOf (es.map Expr.enclose)) := by
  intro depth rest short ends
  simp only [List.length_cons, List.length_append, List.length_nil] at short
  have inside := @expressions_give now depth es restored (by omega) rest
  rw [List.cons_append, List.append_assoc, List.singleton_append]
  refine baseGives_of_mark (by decide) (by decide) ?_
  refine (text_misses (by simp)).orElse (Misses.orElse (misses_char (by simp)).bind (Gives.orElse ?_))
  refine (gives_char '(').bind (inside.bind ?_)
  generalize es.map Expr.enclose = items
  obtain _ | ⟨e, _ | ⟨f, more⟩⟩ := items <;> exact gives_pure

theorem readsBase_parenthesis (restored : Restored now e) :
    ReadsBase now (Expr.parenthesis e).display.toList (.parenthesis e.enclose) := by
  have reads := @readsBase_group now [e] (by simpa using restored)
  have text : (Expr.parenthesis e).display.toList =
      '(' :: ((", ".intercalate ([e].map Expr.display)).toList ++ [')']) := by
    simp [Expr.display, enclosed]
  rw [text]
  exact reads

theorem readsBase_list {items : List Expr} (several : items.length ≠ 1)
    (restored : ∀ i ∈ items, Restored now i) :
    ReadsBase now (Expr.parenthesis (.commaList items)).display.toList
      (.parenthesis (.commaList (items.map Expr.enclose))) := by
  have reads := readsBase_group restored
  have text : (Expr.parenthesis (.commaList items)).display.toList =
      '(' :: ((", ".intercalate (items.map Expr.display)).toList ++ [')']) := by
    simp [Expr.display, Expr.commaList, enclosed, Expr.displayAll_eq_map]
  have group : groupOf (items.map Expr.enclose) =
      .parenthesis (.commaList (items.map Expr.enclose)) := by
    refine groupOf.eq_2 _ ?_
    intro i single
    have length := congrArg List.length single
    rw [List.length_map] at length
    exact several length
  rw [text, ← group]
  exact reads

theorem readsBase_function {n : String} {args : List Expr} (named : isName n = true)
    (plain : plainName n = true) (unreserved : Unreserved n)
    (restored : ∀ a ∈ args, Restored now a) :
    ReadsBase now (Expr.function n args).display.toList (.function n (args.map Expr.enclose)) := by
  intro depth rest short ends
  have text : (Expr.function n args).display.toList =
      n.toList ++ '(' :: ((", ".intercalate (args.map Expr.display)).toList ++ [')']) := by
    simp [Expr.display, enclosed, Expr.displayAll_eq_map]
  rw [text] at short ⊢
  simp only [List.length_cons, List.length_append, List.length_nil] at short
  have inside := @expressions_give now depth args restored (by omega) rest
  have endsWord : EndsWord ('(' :: ((", ".intercalate (args.map Expr.display)).toList ++
      ')' :: rest)) := endsWord_cons (by decide) _
  rw [List.append_assoc, List.cons_append, List.append_assoc, List.singleton_append]
  refine baseGives_of_name named plain unreserved endsWord (by simp) (.inl ?_)
  exact (name_gives named endsWord).bind ((gives_char '(').bind (inside.bind gives_pure))

end

section
variable {now : LocalTime} {depth : Nat} {cs tail : List Char} {w t : Expr}

def armText (arm : Expr × Expr) : List Char :=
  "WHEN ".toList ++ (arm.1.display.toList ++ (" THEN ".toList ++ arm.2.display.toList))

theorem required_gives {α : Type} {rule : Rule α} {a : α} {rest : List Char}
    (gives : rule.Gives cs a rest) : (required rule).Gives cs a rest :=
  gives_remaining.bind gives.orElse

theorem closes_blank {c : Char} (visible : Text.isBlank c = false)
    (other : c.toLower ∉ operatorStarts) (rest : List Char) : Closes (' ' :: c :: rest) := by
  refine ⟨ends_cons (by decide) _, ?_⟩
  have skipped : Text.skipBlank (c :: rest) = c :: rest :=
    skipBlank_of_visible (by rintro d ⟨rfl⟩; exact visible)
  intro d first
  have same : (Text.skipBlank (c :: rest)).head? = some d := first
  rw [skipped] at same
  cases same
  exact other

theorem keyword_gives_blank (word upper : String) (isKeyword : IsKeyword word)
    (lower : upper.toList.map Char.toLower = word.toList) (rest : List Char) :
    (keyword word).Gives (upper.toList ++ ' ' :: rest) () (' ' :: rest) :=
  keyword_gives isKeyword lower (endsWord_cons (by decide) rest)

theorem caseArm_gives {arm : Expr × Expr} {spaced : Bool} (condition : Restored now arm.1)
    (result : Restored now arm.2) (short : (armText arm).length ≤ depth) (closes : Closes tail)
    (skipped : blanks.Gives cs spaced (armText arm ++ tail)) :
    (caseArm ((standard now).level depth).expression).Gives cs (arm.1.enclose, arm.2.enclose)
      tail := by
  have lengths : arm.1.display.toList.length < depth ∧ arm.2.display.toList.length < depth := by
    simp only [armText, List.length_append] at short
    have when : "WHEN ".toList.length = 5 := rfl
    omega
  have written : armText arm ++ tail = "WHEN".toList ++ ' ' :: (arm.1.display.toList ++
      ' ' :: ("THEN".toList ++ ' ' :: (arm.2.display.toList ++ tail))) := by simp [armText]
  rw [written] at skipped
  have closed : Closes (' ' :: ("THEN".toList ++ ' ' :: (arm.2.display.toList ++ tail))) :=
    closes_blank (by decide) (by decide) _
  have visible : Visible ("THEN".toList ++ ' ' :: (arm.2.display.toList ++ tail)) := by
    rintro c ⟨rfl⟩
    rfl
  have opened := keyword_gives_blank "when" "WHEN" (by decide) (by decide) (arm.1.display.toList ++
    ' ' :: ("THEN".toList ++ ' ' :: (arm.2.display.toList ++ tail)))
  have divided := keyword_gives_blank "then" "THEN" (by decide) (by decide)
    (arm.2.display.toList ++ tail)
  refine skipped.bind (opened.bind ((gives_blanks_space (visible_of_opens condition.opens _)).bind
    ((required_gives (condition.reads lengths.1 closed)).bind ((gives_blanks_space visible).bind
      ((required_gives divided).bind ((gives_blanks_space (visible_of_opens result.opens _)).bind
        ((required_gives (result.reads lengths.2 closes)).bind ?_)))))))
  exact gives_pure

def armsTail (arms : List (Expr × Expr)) (tail : List Char) : List Char :=
  (arms.flatMap fun arm => ' ' :: armText arm) ++ tail

theorem closes_armsTail {arms : List (Expr × Expr)} (closes : Closes tail) :
    Closes (armsTail arms tail) := by
  cases arms with
  | nil => exact closes
  | cons arm arms => exact closes_blank (by decide) (by decide) _

theorem arms_give {arms : List (Expr × Expr)}
    (restored : ∀ arm ∈ arms, Restored now arm.1 ∧ Restored now arm.2)
    (short : ∀ arm ∈ arms, (armText arm).length ≤ depth) (closes : Closes tail)
    (ends : (caseArm ((standard now).level depth).expression).Misses tail) :
    Gives (Rule.many (caseArm ((standard now).level depth).expression)) (armsTail arms tail)
      (arms.map fun arm => (arm.1.enclose, arm.2.enclose)) tail := by
  induction arms with
  | nil => exact ends.many
  | cons arm arms ih =>
    obtain ⟨first, later⟩ := List.forall_mem_cons.1 restored
    obtain ⟨fits, laterFit⟩ := List.forall_mem_cons.1 short
    have written : armsTail (arm :: arms) tail = ' ' :: (armText arm ++ armsTail arms tail) := by
      simp [armsTail]
    have visible : Visible (armText arm ++ armsTail arms tail) := by
      rintro c ⟨rfl⟩
      rfl
    rw [written]
    refine (caseArm_gives first.1 first.2 fits (closes_armsTail closes)
      (gives_blanks_space visible)).many ?_ (ih later laterFit)
    simp only [List.length_cons, List.length_append]
    omega

def caseEnd (otherwise : Option Expr) (rest : List Char) : List Char :=
  (otherwise.toList.flatMap fun o => " ELSE ".toList ++ o.display.toList) ++ (" END".toList ++ rest)

theorem closes_caseEnd (otherwise : Option Expr) (rest : List Char) :
    Closes (caseEnd otherwise rest) := by
  cases otherwise with
  | none => exact closes_blank (by decide) (by decide) _
  | some o => exact closes_blank (by decide) (by decide) _

theorem not_begins_when_caseEnd (otherwise : Option Expr) (rest : List Char) :
    ¬Begins "when" (Text.skipBlank (caseEnd otherwise rest)) := by
  cases otherwise with
  | none => exact not_begins_of_head rfl (by decide : 'E'.toLower ≠ 'w') _
  | some o => exact not_begins_of_head rfl (by decide : 'E'.toLower ≠ 'w') _

theorem caseArm_misses {expression : Rule Expr} (other : ¬Begins "when" (Text.skipBlank cs)) :
    (caseArm expression).Misses cs :=
  gives_blanks.bind_misses (token_misses (by decide) other).bind

theorem elseBranch_gives {o : Expr} (restored : Restored now o)
    (short : o.display.toList.length < depth) (rest : List Char) :
    (elseBranch ((standard now).level depth).expression).Gives (caseEnd (some o) rest) o.enclose
      (" END".toList ++ rest) := by
  have written : caseEnd (some o) rest =
      ' ' :: ("ELSE".toList ++ ' ' :: (o.display.toList ++ (" END".toList ++ rest))) := by
    simp [caseEnd]
  have visible : Visible ("ELSE".toList ++ ' ' :: (o.display.toList ++ (" END".toList ++ rest))) := by
    rintro c ⟨rfl⟩
    rfl
  have opened := keyword_gives_blank "else" "ELSE" (by decide) (by decide)
    (o.display.toList ++ (" END".toList ++ rest))
  rw [written]
  exact (gives_blanks_space visible).bind (opened.bind
    ((gives_blanks_space (visible_of_opens restored.opens _)).bind
      (restored.reads short (closes_blank (by decide) (by decide) _))))

theorem elseBranch_misses {expression : Rule Expr} {rest : List Char} (ends : EndsWord rest) :
    (elseBranch expression).Misses (" END".toList ++ rest) := by
  have visible : Visible ("END".toList ++ rest) := by
    rintro c ⟨rfl⟩
    rfl
  refine (gives_blanks_space visible).bind_misses (token_misses (by decide) ?_).bind
  rw [begins_append _ _ ends]
  decide

theorem endMark_gives {rest : List Char} (ends : EndsWord rest) :
    endMark.Gives (" END".toList ++ rest) () rest := by
  have visible : Visible ("END".toList ++ rest) := by
    rintro c ⟨rfl⟩
    rfl
  exact (gives_blanks_space visible).bind
    (keyword_gives (by decide) (by decide : "END".toList.map Char.toLower = "end".toList) ends)

theorem caseTail_gives {arm : Expr × Expr} {arms : List (Expr × Expr)} {otherwise : Option Expr}
    {start rest : List Char} {spaced : Bool} (subject : Option Expr)
    (restored : ∀ a ∈ arm :: arms, Restored now a.1 ∧ Restored now a.2)
    (short : ∀ a ∈ arm :: arms, (armText a).length ≤ depth)
    (branch : ∀ o ∈ otherwise, Restored now o ∧ o.display.toList.length < depth)
    (ends : EndsWord rest)
    (skipped : blanks.Gives cs spaced (armText arm ++ armsTail arms (caseEnd otherwise rest))) :
    (caseTail ((standard now).level depth).expression start subject).Gives cs
      (.case subject ((arm :: arms).map fun a => (a.1.enclose, a.2.enclose))
        (otherwise.map Expr.enclose)) rest := by
  obtain ⟨first, later⟩ := List.forall_mem_cons.1 restored
  obtain ⟨fits, laterFit⟩ := List.forall_mem_cons.1 short
  have closes := closes_caseEnd otherwise rest
  have noArm := @caseArm_misses _ ((standard now).level depth).expression
    (not_begins_when_caseEnd otherwise rest)
  have read := caseArm_gives first.1 first.2 fits (closes_armsTail closes) skipped
  have shorter : (armsTail arms (caseEnd otherwise rest)).length < cs.length := by
    have length := Text.skipBlank_length_le cs
    rw [(gives_blanks.unique skipped).2, List.length_append, armText, List.length_append] at length
    have opening : "WHEN ".toList.length = 5 := rfl
    omega
  refine Gives.bind (read.many shorter (arms_give later laterFit closes noArm)) ?_
  rw [List.isEmpty_cons]
  have marked := (endMark_gives ends).optional
  cases otherwise with
  | none => exact (elseBranch_misses ends).optional.bind (marked.bind gives_pure)
  | some o =>
    obtain ⟨restoredBranch, shortBranch⟩ := branch o rfl
    exact (elseBranch_gives restoredBranch shortBranch rest).optional.bind (marked.bind gives_pure)

theorem length_armText_lt {arms : List (Expr × Expr)} {a : Expr × Expr} (mem : a ∈ arms)
    (tail : List Char) : (armText a).length < (armsTail arms tail).length := by
  induction arms with
  | nil => cases mem
  | cons arm arms ih =>
    have length : (armsTail (arm :: arms) tail).length =
        1 + (armText arm).length + (armsTail arms tail).length := by
      simp only [armsTail, List.flatMap_cons, List.length_append, List.length_cons]
      omega
    obtain rfl | later := List.mem_cons.1 mem
    · omega
    · have shorter := ih later
      omega

theorem display_case_arms (subject : Option Expr) (arms : List (Expr × Expr))
    (otherwise : Option Expr) :
    (Expr.case subject arms otherwise).display.toList = "CASE".toList ++
      ((subject.toList.flatMap fun s => ' ' :: s.display.toList) ++
        armsTail arms (caseEnd otherwise [])) := by
  rw [display_case]
  simp [Expr.displayOption_eq_map, Expr.displayArms_eq_map, armsTail, armText, caseEnd,
    List.flatMap_map]

section
variable {expression : Rule Expr} {mid rest : List Char} {e : Expr}

theorem caseOf_gives_arms (visible : Visible cs) (whens : Begins "when" cs)
    (tail : ∀ start, (caseTail expression start none).Gives cs e rest) :
    (caseOf expression).Gives ("CASE".toList ++ ' ' :: cs) e rest := by
  have opened := keyword_gives_blank "case" "CASE" (by decide) (by decide) cs
  have next : (comesNext "when").Gives cs (Begins "when" cs) cs := comesNext_gives (by decide)
  refine gives_remaining.bind (opened.bind ((gives_blanks_space visible).bind (next.bind ?_)))
  rw [decide_eq_true whens, if_pos rfl]
  exact Gives.bind gives_pure (tail _)

theorem caseOf_gives_subject {s : Expr} (visible : Visible cs) (other : ¬Begins "when" cs)
    (read : expression.Gives cs s mid)
    (tail : ∀ start, (caseTail expression start (some s)).Gives mid e rest) :
    (caseOf expression).Gives ("CASE".toList ++ ' ' :: cs) e rest := by
  have opened := keyword_gives_blank "case" "CASE" (by decide) (by decide) cs
  have next : (comesNext "when").Gives cs (Begins "when" cs) cs := comesNext_gives (by decide)
  refine gives_remaining.bind (opened.bind ((gives_blanks_space visible).bind (next.bind ?_)))
  rw [decide_eq_false other, if_neg Bool.false_ne_true]
  exact (read.map some).bind (tail _)

theorem baseGives_case (gives : (caseOf expression).Gives ("CASE".toList ++ cs) e rest) :
    BaseGives now expression ("CASE".toList ++ cs) e rest := by
  have letters : "CASE".toList ++ cs = 'C' :: ("ASE".toList ++ cs) := rfl
  have absent : ∀ {w : String} {d : Char} {ds : List Char}, w.toList = d :: ds → 'C'.toLower ≠ d →
      ¬Begins w ('C' :: ("ASE".toList ++ cs)) := fun word other => not_begins_of_head word other _
  rw [letters] at gives ⊢
  exact baseGives_of_primary (by decide) (by decide) (absent rfl (by decide))
    (absent rfl (by decide)) gives.orElse

end

theorem readsBase_case {subject otherwise : Option Expr} {arms : List (Expr × Expr)}
    (some : arms ≠ [])
    (subjectRestored : ∀ s ∈ subject, Restored now s ∧ ¬Begins "when" s.display.toList)
    (restored : ∀ a ∈ arms, Restored now a.1 ∧ Restored now a.2)
    (branch : ∀ o ∈ otherwise, Restored now o) :
    ReadsBase now (Expr.case subject arms otherwise).display.toList
      (.case (subject.map Expr.enclose) (arms.map fun a => (a.1.enclose, a.2.enclose))
        (otherwise.map Expr.enclose)) := by
  intro depth rest short ends
  rw [display_case_arms] at short ⊢
  simp only [List.length_append] at short
  have shortArms : ∀ a ∈ arms, (armText a).length ≤ depth := by
    intro a mem
    have shorter := length_armText_lt mem (caseEnd otherwise [])
    omega
  have shortBranch : ∀ o ∈ otherwise, Restored now o ∧ o.display.toList.length < depth := by
    rintro o ⟨rfl⟩
    refine ⟨branch o rfl, ?_⟩
    have length : (caseEnd (Option.some o) []).length = 6 + o.display.toList.length + 4 := by
      simp [caseEnd]
      omega
    simp only [armsTail, List.length_append] at short
    omega
  obtain ⟨arm, more, rfl⟩ := List.exists_cons_of_ne_nil some
  have tail : armsTail (arm :: more) (caseEnd otherwise []) ++ rest =
      ' ' :: (armText arm ++ armsTail more (caseEnd otherwise rest)) := by
    simp [armsTail, caseEnd]
  have visible : Visible (armText arm ++ armsTail more (caseEnd otherwise rest)) := by
    rintro c ⟨rfl⟩
    rfl
  cases subject with
  | none =>
    rw [Option.toList_none, List.flatMap_nil, List.nil_append, List.append_assoc, tail]
    refine baseGives_case (caseOf_gives_arms visible ?_ fun start => ?_)
    · exact (begins_append "when" "WHEN".toList (endsWord_cons (by decide) _)).2 (by decide)
    · exact caseTail_gives none restored shortArms shortBranch ends.endsWord
        (gives_blanks_of_visible visible)
  | some s =>
    obtain ⟨subjectRestored, other⟩ := subjectRestored s rfl
    have length : s.display.toList.length < depth := by
      simp at short
      omega
    have closes : Closes (' ' :: (armText arm ++ armsTail more (caseEnd otherwise rest))) :=
      closes_blank (by decide) (by decide) _
    rw [Option.toList_some, List.flatMap_singleton, List.append_assoc, List.append_assoc, tail,
      List.cons_append]
    refine baseGives_case (caseOf_gives_subject (visible_of_opens subjectRestored.opens _) ?_
      (subjectRestored.reads length closes) fun start => ?_)
    · rwa [begins_append _ _ closes.1.endsWord]
    · exact caseTail_gives _ restored shortArms shortBranch ends.endsWord
        (gives_blanks_space visible)

end

end SqlFragment.Grammar
