import SqlFragment.Proofs.Grammar.Restoring

/-
Expressions that were read from a text are read again from their own text, up to parentheses.

Timestamps take the parts that are left out from the clock, and their texts show a year of four digits
and no leap second. So the clock is supposed to show such a year, and no leap second either; from any
other one, a literal without a date or a time gets what its text cannot give back.
-/
namespace SqlFragment

namespace Expr

def bare : Expr → Expr
  | .parenthesis e => e
  | e => e

/-- The expression without its parentheses. -/
def erase (e : Expr) : Expr := e.rewrite bare

theorem erase_wrapIf (needed : Bool) (e : Expr) : (wrapIf needed e).erase = e.erase := by
  cases needed <;> rfl

theorem erase_function (n : String) (args : List Expr) :
    erase (.function n args) = .function n (args.map erase) := rewrite_function _ n args

theorem erase_list (items : List Expr) (s : String) :
    erase (.list items s) = .list (items.map erase) s := rewrite_list _ items s

theorem erase_case (s : Option Expr) (arms : List (Expr × Expr)) (o : Option Expr) :
    erase (.case s arms o) =
      .case (s.map erase) (arms.map fun arm => (erase arm.1, erase arm.2)) (o.map erase) :=
  rewrite_case _ s arms o

theorem erase_enclose (e : Expr) : e.enclose.erase = e.erase := by
  induction e using inductionOnParts with
  | literal | parameter | column | table | raw => rfl
  | function n args ih =>
    rw [enclose_function, erase_function, erase_function, List.map_map]
    exact congrArg (Expr.function n) (List.map_congr_left ih)
  | list items s ih =>
    rw [enclose_list, erase_list, erase_list, List.map_map]
    exact congrArg (Expr.list · s) (List.map_congr_left ih)
  | parenthesis e ih => exact ih
  | unary op e t ih =>
    rw [enclose_unary]
    exact congrArg (Expr.unary op · t) ((erase_wrapIf _ _).trans ih)
  | range e low high t u he hlow hhigh =>
    rw [enclose_range]
    change Expr.binary .between (erase (wrapIf _ _))
      (.binary .and (erase (wrapIf _ _)) (erase (wrapIf _ _)) t) u = _
    rw [erase_wrapIf, erase_wrapIf, erase_wrapIf, he, hlow, hhigh]
    rfl
  | binary op l r t plain hl hr =>
    rw [enclose_binary plain]
    change Expr.binary op (erase (wrapIf _ _)) (erase (wrapIf _ _)) t = _
    rw [erase_wrapIf, erase_wrapIf, hl, hr]
    rfl
  | case s arms o hs harms ho =>
    have first : s.map (erase ∘ enclose) = s.map erase := Option.map_congr hs
    have last : o.map (erase ∘ enclose) = o.map erase := Option.map_congr ho
    have pairs : arms.map (fun arm => (arm.1.enclose.erase, arm.2.enclose.erase)) =
        arms.map fun arm => (arm.1.erase, arm.2.erase) :=
      List.map_congr_left fun arm mem => Prod.ext (harms arm mem).1 (harms arm mem).2
    rw [enclose_case, erase_case, erase_case, Option.map_map, Option.map_map, List.map_map, first,
      last]
    exact congrArg (Expr.case _ · _) pairs

end Expr

namespace Grammar
open Rule SqlFragment.Expr

/-- How the text of an expression is read, in each place where the expression may stand. -/
structure Rereads (now : LocalTime) (e : Expr) : Prop where
  item : e.isItem = true → Restored now e
  term : e.isTerm = true → ReadsTerm now e.display.toList e.enclose
  base : e.isBase = true → e.precedence? = none → ReadsBase now e.display.toList e.enclose
  items : ∀ es s, e = .list es s → ∀ i ∈ es, Restored now i

section
variable {now : LocalTime} {e l r : Expr} {needed : Bool}

theorem opens_of_head {c : Char} {text tail : List Char} (head : text = c :: tail)
    (starts : startsOperand c = true) : Opens text := ⟨c, tail, head, starts⟩

theorem Opens.append {text : List Char} (opens : Opens text) (more : List Char) :
    Opens (text ++ more) := by
  obtain ⟨c, tail, rfl, starts⟩ := opens
  exact ⟨c, tail ++ more, rfl, starts⟩

theorem toList_enclosed (text : String) : (enclosed text).toList = '(' :: (text.toList ++ [')']) := by
  simp [enclosed]

theorem opens_enclosedIf (opens : Opens e.display.toList) :
    Opens (enclosedIf needed e.display).toList := by
  cases needed with
  | true => exact opens_of_head (toList_enclosed _) (by decide)
  | false => exact opens

theorem not_begins_enclosedIf {w : String} (keyword : IsKeyword w)
    (other : ¬Begins w e.display.toList) : ¬Begins w (enclosedIf needed e.display).toList := by
  cases needed with
  | true =>
    rw [enclosedIf, if_pos rfl, toList_enclosed]
    exact not_begins_of_mark keyword (by decide) _
  | false => exact other

theorem readsTerm_wrapIf (reads : Rereads now e) (term : e.isTerm = true) :
    ReadsTerm now (enclosedIf needed e.display).toList (wrapIf needed e.enclose) := by
  cases needed with
  | true => exact (readsBase_parenthesis (reads.item (isItem_of_isTerm term))).term
  | false => exact reads.term term

theorem readsExpression_wrapIf (reads : Rereads now e) (item : e.isItem = true) :
    ReadsExpression now (enclosedIf needed e.display).toList (wrapIf needed e.enclose) := by
  cases needed with
  | true => exact (readsBase_parenthesis (reads.item item)).term.expression
  | false => exact (reads.item item).reads

theorem rereads_of_term (opens : Opens e.display.toList)
    (reads : ReadsTerm now e.display.toList e.enclose) (operator : e.precedence? ≠ none) :
    Rereads now e where
  item _ := ⟨opens, reads.expression⟩
  term _ := reads
  base _ none := absurd none operator
  items := by
    rintro es s rfl
    exact absurd rfl operator

theorem rereads_of_base (opens : Opens e.display.toList)
    (reads : ReadsBase now e.display.toList e.enclose) (item : e.isItem = true) :
    Rereads now e where
  item _ := ⟨opens, reads.term.expression⟩
  term _ := reads.term
  base _ _ := reads
  items := by
    rintro es s rfl
    cases item

theorem startsOperand_of_isNamePart {c : Char} (part : isNamePart c = true) :
    startsOperand c = true := by
  rw [startsOperand, part, Bool.true_or]

theorem opens_of_isName {n : String} (named : isName n = true) (tail : List Char) :
    Opens (n.toList ++ tail) := by
  obtain ⟨c, more, chars, start, -⟩ := isName_cons named
  rw [chars]
  exact ⟨c, more ++ tail, rfl, startsOperand_of_isNamePart (by simp [isNamePart, start])⟩

theorem opens_value {v : Value} (whole : ∀ x, v ≠ .float x) : Opens v.display.toList := by
  by_cases named : v = .null
  · subst named
    exact opens_of_head rfl (by decide : startsOperand 'n' = true)
  · obtain ⟨c, tail, text, marked | ⟨-, digit⟩⟩ := display_cons named whole
    · have starts : ['t', 'f', '-', '\'', '#', 'X'].all startsOperand = true := by decide
      exact ⟨c, tail, text, List.all_eq_true.1 starts c marked⟩
    · exact ⟨c, tail, text, startsOperand_of_isNamePart (by simp [isNamePart, digit])⟩

theorem rereads_literal {v : Value} (denoted : Denoted v) (plain : (Expr.value v).Plain) :
    Rereads now (.value v) := by
  have whole : ∀ x, v ≠ .float x := by
    rintro x rfl
    cases plain.self
  exact rereads_of_base (opens_value whole) (readsBase_literal whole denoted) rfl

theorem rereads_column {p : Path} (node : parsedNode (.column p)) (plain : (Expr.column p).Plain) :
    Rereads now (.column p) := by
  obtain ⟨isPath, unreserved⟩ := node
  have plainNames : ∀ n ∈ p, plainName n = true := List.all_eq_true.1 plain.self
  refine rereads_of_base ?_ (readsBase_column isPath unreserved plainNames) rfl
  obtain ⟨some, -, named⟩ := isPath
  obtain ⟨n, names, rfl⟩ := List.exists_cons_of_ne_nil some
  rw [Expr.display, display_cons_toList]
  exact opens_of_isName (named n List.mem_cons_self) _

theorem unary_groups_enclose (op : UnaryOperator) (e : Expr) :
    op.groups e.enclose e.enclose.display = op.groups e e.display := by
  simp only [UnaryOperator.groups, precedence?_enclose, display_enclose]

theorem keyword_of_after {op : UnaryOperator} (place : op.position = .after) :
    op.isKeyword = true ∧ op.precedence = 5 := by
  revert place
  cases op <;> decide

/-- After an operand, an operator encloses exactly those that end in an operator. -/
theorem groups_of_isBase {op : UnaryOperator} (place : op.position = .after)
    (base : e.isBase = true) (text : String) : op.groups e text = e.precedence?.isSome := by
  have keyword := keyword_of_after place
  cases e with
  | unary inner e t =>
    have strength := (keyword_of_after (eq_of_beq base)).2
    simp [UnaryOperator.groups, precedence?, keyword, strength, place]
  | binary inner l r t => cases base
  | _ => simp [UnaryOperator.groups, precedence?, keyword]

theorem rereads_after {op : UnaryOperator} (place : op.position = .after) (reads : Rereads now e)
    (base : e.isBase = true) : Rereads now (.apply op e) := by
  have item := isItem_of_isTerm (isTerm_of_isBase base)
  have operand : ReadsBase now (enclosedIf (op.groups e e.display) e.display).toList
      (wrapIf (op.groups e e.display) e.enclose) := by
    rw [groups_of_isBase place base]
    cases strength : e.precedence? with
    | none => exact reads.base base strength
    | some n => exact readsBase_parenthesis (reads.item item)
  have text := display_after place e .undefined
  refine rereads_of_term ?_ ?_ (by simp [Expr.apply, precedence?])
  · rw [Expr.apply, text]
    exact (opens_enclosedIf (reads.item item).opens).append _
  · rw [Expr.apply, text, enclose_unary, unary_groups_enclose]
    exact operand.after place

def Undigited (text : List Char) : Prop := ∀ c, text.head? = some c → c.isDigit = false

theorem undigited_cons {c : Char} (other : c.isDigit = false) (tail : List Char) :
    Undigited (c :: tail) := by
  rintro d ⟨rfl⟩
  exact other

theorem undigited_name {n : String} (named : isName n = true) (tail : List Char) :
    Undigited (n.toList ++ tail) := by
  obtain ⟨c, more, chars, start, -⟩ := isName_cons named
  rw [chars]
  refine undigited_cons ?_ _
  cases digit : c.isDigit with
  | false => rfl
  | true => exact absurd start (by simp [isNameStart_of_isDigit digit])

theorem undigited_value {v : Value} (other : v.isNumber = false) : Undigited v.display.toList := by
  by_cases named : v = .null
  · subst named
    exact undigited_cons (by decide : 'n'.isDigit = false) _
  · have whole : ∀ x, v ≠ .float x := by
      rintro x rfl
      cases other
    obtain ⟨c, tail, text, marked | ⟨⟨n, rfl⟩, -⟩⟩ := display_cons named whole
    · have marks : ['t', 'f', '-', '\'', '#', 'X'].all (! Char.isDigit ·) = true := by decide
      rw [text]
      exact undigited_cons (by simpa using List.all_eq_true.1 marks c marked) tail
    · cases other

theorem undigited_of_sign {op : UnaryOperator} (sign : op = .plus ∨ op = .minus)
    (plain : (Expr.apply op e).Plain) (nodes : e.All parsedNode) (term : e.isTerm = true) :
    Undigited (enclosedIf (op.groups e e.display) e.display).toList := by
  cases needed : op.groups e e.display with
  | true =>
    rw [enclosedIf, if_pos rfl, toList_enclosed]
    exact undigited_cons (by decide) _
  | false =>
    rw [enclosedIf, if_neg Bool.false_ne_true]
    cases e with
    | literal v t =>
      have node : (Expr.apply op (.literal v t)).plainNode = true := plain.self
      refine undigited_value ?_
      obtain rfl | rfl := sign <;> simpa [Expr.apply, plainNode] using node
    | parameter n =>
      have text : (Expr.parameter n).display.toList = ':' :: n.toList := by simp [Expr.display]
      rw [text]
      exact undigited_cons (by decide) _
    | column p =>
      obtain ⟨⟨some, -, named⟩, -⟩ := nodes.self
      obtain ⟨n, names, rfl⟩ := List.exists_cons_of_ne_nil some
      rw [Expr.display, display_cons_toList]
      exact undigited_name (named n List.mem_cons_self) _
    | function n args =>
      have text : (Expr.function n args).display.toList = n.toList ++
          (enclosed (", ".intercalate (displayAll args))).toList := by simp [Expr.display]
      rw [text]
      exact undigited_name nodes.self.1 _
    | parenthesis e =>
      rw [Expr.display, toList_enclosed]
      exact undigited_cons (by decide) _
    | case s arms o =>
      rw [display_case]
      exact undigited_cons (by decide : 'C'.isDigit = false) _
    | unary inner e t =>
      cases inner with
      | isNull | isNotNull =>
        -- these bind weaker than a sign, so they would be enclosed
        obtain rfl | rfl := sign <;> cases needed
      | _ =>
        rw [display_before rfl]
        exact undigited_cons (by decide) _
    | table p => exact nodes.self.elim
    | raw text t => exact nodes.self.elim
    | list items s => cases term
    | binary op l r t => cases term

theorem rereads_before {op : UnaryOperator} (place : op.position = .before) (reads : Rereads now e)
    (term : e.isTerm = true) (plain : (Expr.apply op e).Plain) (nodes : e.All parsedNode) :
    Rereads now (.apply op e) := by
  have opens : Opens (enclosedIf (op.groups e e.display) e.display).toList :=
    opens_enclosedIf (reads.item (isItem_of_isTerm term)).opens
  have text := display_before place e .undefined
  refine rereads_of_term ?_ ?_ (by simp [Expr.apply, precedence?])
  · rw [Expr.apply, text]
    have prefixes : Opens (prefixText op) := by
      cases op with
      | isNull | isNotNull => cases place
      | _ => exact opens_of_head rfl (by decide)
    exact prefixes.append _
  · rw [Expr.apply, text, enclose_unary, unary_groups_enclose]
    exact (readsTerm_wrapIf reads term).before place opens fun sign =>
      undigited_of_sign sign plain nodes term

theorem rereads_combine {op : BinaryOperator} (node : parsedNode (.combine op l r))
    (left : Rereads now l) (right : Rereads now r) : Rereads now (.combine op l r) := by
  obtain ⟨-, other, isTerm, isItem, notNull, notNegated⟩ := node
  have text := display_between other l r .undefined
  have openLeft := (left.item (isItem_of_isTerm isTerm)).opens
  have openRight := (right.item isItem).opens
  have reads : ReadsExpression now (Expr.combine op l r).display.toList
      (Expr.combine op l r).enclose := by
    rw [Expr.combine, text, enclose_binary (not_isRange_of_ne other), groups_enclose,
      groupsRight_enclose]
    exact (readsTerm_wrapIf left isTerm).combine other (readsExpression_wrapIf right isItem)
      (opens_enclosedIf openRight)
      (fun equality => not_begins_enclosedIf (by decide) (notNull equality))
      fun equality => not_begins_enclosedIf (by decide) (notNegated equality)
  refine ⟨fun _ => ⟨?_, reads⟩, ?_, ?_, ?_⟩
  · rw [Expr.combine, text]
    exact (opens_enclosedIf openLeft).append _
  · intro term
    cases term
  · intro base
    cases base
  · intro es s list
    cases list

theorem rereads_function {n : String} {args : List Expr} (named : isName n = true)
    (plain : plainName n = true) (unreserved : Unreserved n)
    (restored : ∀ a ∈ args, Restored now a) : Rereads now (.function n args) := by
  have text : (Expr.function n args).display.toList = n.toList ++
      (enclosed (", ".intercalate (displayAll args))).toList := by simp [Expr.display]
  refine rereads_of_base ?_ ?_ rfl
  · rw [text]
    exact opens_of_isName named _
  · rw [enclose_function]
    exact readsBase_function named plain unreserved restored

/-- Between parentheses there is one expression or a list of several. -/
theorem rereads_parenthesis (reads : Rereads now e) (node : parsedNode e) :
    Rereads now (.parenthesis e) := by
  have opens : Opens (Expr.parenthesis e).display.toList :=
    opens_of_head (toList_enclosed _) (by decide)
  refine rereads_of_base opens ?_ rfl
  cases item : e.isItem with
  | true => exact readsBase_parenthesis (reads.item item)
  | false =>
    cases e with
    | list items s =>
      obtain ⟨rfl, several, -⟩ := node
      have reads := readsBase_list several (reads.items items _ rfl)
      rwa [commaList, commaList, ← enclose_list] at reads
    | _ => cases item

theorem rereads_case {s o : Option Expr} {arms : List (Expr × Expr)} (some : arms ≠ [])
    (subject : ∀ e ∈ s, Restored now e ∧ ¬Begins "when" e.display.toList)
    (each : ∀ arm ∈ arms, Restored now arm.1 ∧ Restored now arm.2)
    (branch : ∀ e ∈ o, Restored now e) : Rereads now (.case s arms o) := by
  refine rereads_of_base ?_ ?_ rfl
  · rw [display_case]
    exact opens_of_head rfl (by decide : startsOperand 'C' = true)
  · rw [enclose_case]
    exact readsBase_case some subject each branch

/-- The texts of parsed expressions are read again in every place where the expression stands. -/
theorem rereads (nodes : e.All parsedNode) (plain : e.Plain) : Rereads now e := by
  induction e using inductionOnParts with
  | literal v t =>
    obtain ⟨rfl, denoted⟩ := nodes.self
    exact rereads_literal denoted plain
  | parameter n =>
    have text : (Expr.parameter n).display.toList = ':' :: n.toList := by simp [Expr.display]
    exact rereads_of_base (opens_of_head text (by decide)) (readsBase_parameter nodes.self) rfl
  | column p => exact rereads_column nodes.self plain
  | table p => exact nodes.self.elim
  | raw text t => exact nodes.self.elim
  | function n args ih =>
    obtain ⟨named, unreserved, isItems⟩ := nodes.self
    refine rereads_function named plain.self unreserved ?_
    exact fun a mem => (ih a mem (nodes.argument mem) (plain.argument mem)).item (isItems a mem)
  | list items s ih =>
    obtain ⟨⟨-, -, isItems⟩, parsedItems⟩ := (all_list items s).1 nodes
    have plainItems := ((all_list items s).1 plain).2
    refine ⟨?_, ?_, ?_, ?_⟩
    · intro item
      cases item
    · intro term
      cases term
    · intro base
      cases base
    · rintro es t ⟨rfl, rfl⟩ i mem
      exact (ih i mem (parsedItems i mem) (plainItems i mem)).item (isItems i mem)
  | parenthesis e ih =>
    have parsed := ((all_parenthesis e).1 nodes).2
    exact rereads_parenthesis (ih parsed ((all_parenthesis e).1 plain).2) parsed.self
  | unary op e t ih =>
    obtain ⟨⟨rfl, isTerm, isBase⟩, parsed⟩ := (all_unary op e t).1 nodes
    have inner := ih parsed ((all_unary op e _).1 plain).2
    cases place : op.position with
    | before => exact rereads_before place inner isTerm plain parsed
    | after => exact rereads_after place inner (isBase place)
    | between => cases op <;> cases place
  | range e low high t u he hlow hhigh =>
    obtain ⟨-, other, -⟩ := nodes.self
    exact absurd rfl other
  | binary op l r t _ hl hr =>
    obtain ⟨node, parsedLeft, parsedRight⟩ := (all_binary op l r t).1 nodes
    obtain ⟨-, plainLeft, plainRight⟩ := (all_binary op l r t).1 plain
    obtain rfl : t = .undefined := node.1
    exact rereads_combine node (hl parsedLeft plainLeft) (hr parsedRight plainRight)
  | case s arms o hs harms ho =>
    obtain ⟨some, subjectItem, armItems, branchItem⟩ := nodes.self
    refine rereads_case some ?_ ?_ ?_
    · intro e mem
      exact ⟨(hs e mem (nodes.subject mem) (plain.subject mem)).item (subjectItem e mem).1,
        (subjectItem e mem).2⟩
    · intro arm mem
      obtain ⟨condition, result⟩ := harms arm mem
      exact ⟨(condition (nodes.arm mem).1 (plain.arm mem).1).item (armItems arm mem).1,
        (result (nodes.arm mem).2 (plain.arm mem).2).item (armItems arm mem).2⟩
    · intro e mem
      exact (ho e mem (nodes.branch mem) (plain.branch mem)).item (branchItem e mem)

theorem parse_of_reads {text : String} (opens : Opens text.toList)
    (reads : ReadsExpression now text.toList e) : (standard now).parse text = .ok e := by
  have closes : Closes [] := ⟨ends_nil, by rintro c ⟨⟩⟩
  have read := reads (Nat.lt_succ_self _) closes
  have skipped := skipBlank_of_visible (visible_of_opens opens [])
  rw [List.append_nil] at read skipped
  simp only [parse_standard, parseChars, skipped]
  rw [read]
  rfl

theorem parse_of_restored (restored : Restored now e) :
    (standard now).parse e.display = .ok e.enclose := parse_of_reads restored.opens restored.reads

/-- An expression that was read, without floats, signs before numbers and names that are read as
something else, is read again from its own text, up to parentheses. The clock shows a year from 0 to
9999 and no leap second. -/
theorem parse_display_of_parse (clock : now.Ordinary) {text : String}
    (read : (standard now).parse text = .ok e) (plain : e.Plain) :
    ∃ e', (standard now).parse e.display = .ok e' ∧ e'.erase = e.erase := by
  obtain ⟨nodes, item⟩ := parsed_of_parse clock read plain
  exact ⟨e.enclose, parse_of_restored ((rereads nodes plain).item item), erase_enclose e⟩

theorem parse_display_of_case_distinction :
    ∃ e e', (standard ⟨⟨2024, 2, 29⟩, 3600, 0⟩).parse
        "case a.b when 'x' then not :p is null end is c * d or null" = .ok e ∧ e.Plain ∧
      e.display = "CASE a.b WHEN 'x' THEN NOT :p IS NULL END IS c * (d OR null)" ∧
      (standard ⟨⟨2024, 2, 29⟩, 3600, 0⟩).parse e.display = .ok e' ∧ e'.erase = e.erase := by
  have holds : (((standard ⟨⟨2024, 2, 29⟩, 3600, 0⟩).parse
      "case a.b when 'x' then not :p is null end is c * d or null").toOption.any fun e =>
        decide (e.Plain ∧
          e.display = "CASE a.b WHEN 'x' THEN NOT :p IS NULL END IS c * (d OR null)")) = true := by
    decide +kernel
  cases read : (standard ⟨⟨2024, 2, 29⟩, 3600, 0⟩).parse
      "case a.b when 'x' then not :p is null end is c * d or null" with
  | error fault =>
    rw [read] at holds
    cases holds
  | ok e =>
    rw [read] at holds
    obtain ⟨plain, shown⟩ := of_decide_eq_true holds
    obtain ⟨e', again, same⟩ := parse_display_of_parse (by decide) read plain
    exact ⟨e, e', rfl, plain, shown, again, same⟩

end

end Grammar
end SqlFragment
