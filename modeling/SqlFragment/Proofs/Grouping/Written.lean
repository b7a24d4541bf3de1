import SqlFragment.Proofs.Grouping.Reading

/-
Expressions as their texts show them: without declared types and with all the parentheses that are
written.
-/
namespace SqlFragment.Expr

section
variable (e : Expr)

theorem ofPath_cases (path : Path) :
    ofPath path = .column path ∨
      ∃ name n, path = [name] ∧ numeral? name = some n ∧
        ofPath path = .literal (.integer n) .undefined := by
  unfold ofPath
  split
  · rename_i name
    cases number : numeral? name with
    | none => exact .inl rfl
    | some n => exact .inr ⟨name, n, rfl, number, rfl⟩
  · exact .inl rfl

theorem toString_of_numeral {name : String} {n : Int64} (number : numeral? name = some n) :
    toString n.toInt = name := by
  simpa using (Option.filter_eq_some_iff.mp number).2

theorem display_ofPath (path : Path) : (ofPath path).display = path.display := by
  obtain column | ⟨name, n, rfl, number, literal⟩ := ofPath_cases path
  · rw [column, display]
  · rw [literal, display, Value.display, toString_of_numeral number]
    simp [Path.display]

/-- A column has no operator, however it is read. -/
theorem untyped_column (path : Path) :
    (untyped (.column path)).precedence? = none ∧
      (∀ (op : BinaryOperator) right, op.groups (untyped (.column path)) right = false) ∧
        ∀ op : BinaryOperator, op.groupsRight (untyped (.column path)) = false := by
  have read : untyped (.column path) = ofPath path := rfl
  rw [read]
  obtain column | ⟨_, _, _, _, literal⟩ := ofPath_cases path
  · rw [column]
    exact ⟨rfl, fun _ _ => rfl, fun _ => rfl⟩
  · rw [literal]
    exact ⟨rfl, fun _ _ => rfl, fun _ => rfl⟩

theorem precedence?_untyped : e.untyped.precedence? = e.precedence? := by
  cases e with
  | column path => exact (untyped_column path).1
  | _ => rfl

theorem groups_untyped (op : BinaryOperator) (right : Bool) :
    op.groups e.untyped right = op.groups e right := by
  cases e with
  | column path => exact (untyped_column path).2.1 op right
  | _ => rfl

theorem groupsRight_untyped (op : BinaryOperator) :
    op.groupsRight e.untyped = op.groupsRight e := by
  cases e with
  | column path => exact (untyped_column path).2.2 op
  | _ => rfl

end

theorem isRange_untyped {op : BinaryOperator} {r : Expr} (plain : ¬IsRange op r) :
    ¬IsRange op r.untyped := by
  rintro ⟨low, high, u, isBetween, isAnd⟩
  cases r with
  | column path =>
    have leaf := (untyped_column path).1
    rw [isAnd] at leaf
    cases leaf
  | binary inner a b v =>
    cases isAnd
    exact plain ⟨a, b, v, isBetween, rfl⟩
  | _ => cases isAnd

theorem untyped_function (n : String) (args : List Expr) :
    untyped (.function n args) = .function n (args.map untyped) := rewrite_function _ n args

theorem untyped_list (items : List Expr) (s : String) :
    untyped (.list items s) = .list (items.map untyped) s := rewrite_list _ items s

theorem untyped_case (s : Option Expr) (arms : List (Expr × Expr)) (o : Option Expr) :
    untyped (.case s arms o) =
      .case (s.map untyped) (arms.map fun arm => (untyped arm.1, untyped arm.2)) (o.map untyped) :=
  rewrite_case _ s arms o

theorem display_untyped (e : Expr) : e.untyped.display = e.display := by
  induction e using inductionOnParts with
  | literal | parameter | table | raw => rfl
  | column path => exact display_ofPath path
  | function n args ih =>
    rw [untyped_function]
    exact display_function_map ih n
  | list items s ih =>
    rw [untyped_list]
    exact display_list_map ih s
  | parenthesis e ih => exact congrArg enclosed ih
  | unary op e t ih =>
    have operand : untyped (.unary op e t) = .unary op e.untyped .undefined := rfl
    rw [operand, display, display, ih, UnaryOperator.write, UnaryOperator.write,
      UnaryOperator.groups, UnaryOperator.groups, precedence?_untyped]
  | range e low high t u he hlow hhigh =>
    have parts : untyped (.binary .between e (.binary .and low high t) u) =
        .binary .between e.untyped (.binary .and low.untyped high.untyped .undefined) .undefined :=
      rfl
    simp only [parts, display, he, hlow, hhigh, BinaryOperator.writeOperand, groups_untyped]
  | binary op l r t plain hl hr =>
    have parts : untyped (.binary op l r t) = .binary op l.untyped r.untyped .undefined := rfl
    rw [parts, display_binary plain, display_binary (isRange_untyped plain), hl, hr, writeRight_eq,
      writeRight_eq, BinaryOperator.writeOperand, BinaryOperator.writeOperand, groups_untyped,
      groupsRight_untyped]
  | case s arms o hs harms ho =>
    rw [untyped_case]
    exact display_case_map hs harms ho

/-- An expression as its text shows it. -/
def written (e : Expr) : Expr := e.untyped.enclose

theorem display_written (e : Expr) : e.written.display = e.display := by
  rw [written, display_enclose, display_untyped]

theorem tight_written (e : Expr) : e.written.Tight := tight_enclose e.untyped

theorem elementaryNode_binary {op : BinaryOperator} {l r : Expr} {t : DataType} :
    elementaryNode (.binary op l r t) = true ↔ (op = .between → IsRange op r) := by
  constructor
  · rintro node rfl
    cases r with
    | binary inner low high u =>
      have bounds : inner = .and := by
        cases inner <;> first | rfl | exact absurd node Bool.false_ne_true
      exact ⟨low, high, u, rfl, by rw [bounds]⟩
    | _ => exact absurd node Bool.false_ne_true
  · intro range
    cases op with
    | between =>
      obtain ⟨low, high, u, -, rfl⟩ := range rfl
      rfl
    | _ => rfl

theorem nonneg_of_numeral {name : String} {n : Int64} (plain : isPlainName name = true)
    (number : numeral? name = some n) : 0 ≤ n.toInt := by
  by_cases negative : n.toInt < 0
  · have chars := Integer.toList_toString_of_neg negative
    rw [toString_of_numeral number] at chars
    have sign : '-' ∈ name.toList := by rw [chars]; exact List.mem_cons_self
    exact absurd (Grouping.isAlphanum_of_plain plain sign) (by decide)
  · omega

theorem legible_ofPath {path : Path} (node : elementaryNode (.column path) = true) :
    (ofPath path).Legible := by
  obtain column | ⟨name, n, rfl, number, literal⟩ := ofPath_cases path
  · rw [column]
    exact (all_leaf rfl).mpr ⟨node, column⟩
  · have plain : isPlainName name = true := by simpa [elementaryNode] using node
    rw [literal]
    exact (all_leaf rfl).mpr
      ⟨by simpa [elementaryNode] using nonneg_of_numeral plain number, rfl⟩

theorem legible_untyped {e : Expr} (elementary : e.Elementary) : e.untyped.Legible := by
  induction e using inductionOnParts with
  | literal v t =>
    have node : elementaryNode (.literal v t) = true := elementary.self
    exact (all_leaf rfl).mpr ⟨by cases v <;> exact node, rfl⟩
  | parameter n => exact (all_leaf rfl).mpr ⟨elementary.self, rfl⟩
  | column path => exact legible_ofPath elementary.self
  | table path => exact absurd elementary.self Bool.false_ne_true
  | raw s t => exact absurd elementary.self Bool.false_ne_true
  | list items s => exact absurd elementary.self Bool.false_ne_true
  | function n args ih =>
    obtain ⟨node, parts⟩ := (all_function n args).mp elementary
    rw [untyped_function]
    exact all_function_map ⟨node, rfl⟩ fun a ha => ih a ha (parts a ha)
  | parenthesis e ih =>
    exact (all_parenthesis _).mpr ⟨⟨rfl, rfl⟩, ih ((all_parenthesis e).mp elementary).2⟩
  | unary op e t ih =>
    exact (all_unary op _ _).mpr ⟨⟨rfl, rfl⟩, ih ((all_unary op e t).mp elementary).2⟩
  | range e low high t u he hlow hhigh =>
    obtain ⟨-, subject, bounds⟩ := (all_binary _ _ _ _).mp elementary
    obtain ⟨-, lower, upper⟩ := (all_binary _ _ _ _).mp bounds
    exact (all_binary _ _ _ _).mpr ⟨⟨rfl, rfl⟩, he subject,
      (all_binary _ _ _ _).mpr ⟨⟨rfl, rfl⟩, hlow lower, hhigh upper⟩⟩
  | binary op l r t plain hl hr =>
    obtain ⟨node, left, right⟩ := (all_binary _ _ _ _).mp elementary
    have notRange : op ≠ .between := fun isBetween =>
      plain (elementaryNode_binary.mp node isBetween)
    exact (all_binary _ _ _ _).mpr
      ⟨⟨elementaryNode_binary.mpr fun same => absurd same notRange, rfl⟩, hl left, hr right⟩
  | case s arms o hs harms ho =>
    obtain ⟨-, subject, each, branch⟩ := (all_case s arms o).mp elementary
    rw [untyped_case]
    refine all_case_map ⟨rfl, rfl⟩ (fun e he => hs e he (subject e he)) ?_
      fun e he => ho e he (branch e he)
    exact fun arm harm =>
      ⟨(harms arm harm).1 (each arm harm).1, (harms arm harm).2 (each arm harm).2⟩

theorem legible_wrapIf {e : Expr} (legible : e.Legible) (needed : Bool) :
    (wrapIf needed e).Legible := by
  cases needed with
  | false => exact legible
  | true => exact (all_parenthesis e).mpr ⟨⟨rfl, rfl⟩, legible⟩

theorem legible_enclose {e : Expr} (legible : e.Legible) : e.enclose.Legible := by
  induction e using inductionOnParts with
  | literal | parameter | column | table | raw => exact legible
  | function n args ih =>
    obtain ⟨node, parts⟩ := (all_function n args).mp legible
    rw [enclose_function]
    exact all_function_map ⟨node.1, rfl⟩ fun a ha => ih a ha (parts a ha)
  | list items s => exact absurd legible.self.1 Bool.false_ne_true
  | parenthesis e ih => exact (all_parenthesis _).mpr ⟨⟨rfl, rfl⟩, ih legible.inner⟩
  | unary op e t ih =>
    obtain ⟨rfl, operand⟩ := legible.operand
    rw [enclose_unary]
    exact (all_unary op _ _).mpr ⟨⟨rfl, rfl⟩, legible_wrapIf (ih operand) _⟩
  | range e low high t u he hlow hhigh =>
    obtain ⟨rfl, subject, bounds⟩ := legible.operands
    obtain ⟨rfl, lower, upper⟩ := bounds.operands
    rw [enclose_range]
    exact (all_binary _ _ _ _).mpr ⟨⟨rfl, rfl⟩, legible_wrapIf (he subject) _,
      (all_binary _ _ _ _).mpr
        ⟨⟨rfl, rfl⟩, legible_wrapIf (hlow lower) _, legible_wrapIf (hhigh upper) _⟩⟩
  | binary op l r t plain hl hr =>
    have notRange := legible.plain plain
    obtain ⟨rfl, left, right⟩ := legible.operands
    rw [enclose_binary plain]
    exact (all_binary _ _ _ _).mpr
      ⟨⟨elementaryNode_binary.mpr fun same => absurd same notRange, rfl⟩,
        legible_wrapIf (hl left) _, legible_wrapIf (hr right) _⟩
  | case s arms o hs harms ho =>
    obtain ⟨-, subject, each, branch⟩ := (all_case s arms o).mp legible
    rw [enclose_case]
    refine all_case_map ⟨rfl, rfl⟩ (fun e he => hs e he (subject e he)) ?_
      fun e he => ho e he (branch e he)
    exact fun arm harm =>
      ⟨(harms arm harm).1 (each arm harm).1, (harms arm harm).2 (each arm harm).2⟩

theorem legible_written {e : Expr} (elementary : e.Elementary) : e.written.Legible :=
  legible_enclose (legible_untyped elementary)

theorem chained_wrapIf (needed : Bool) (e : Expr) : (wrapIf needed e).chained = e.chained := by
  cases needed <;> rfl

theorem chained_enclose {e : Expr} (legible : e.Legible) : e.enclose.chained = e.chained := by
  induction e using inductionOnParts with
  | literal | parameter | column | table | raw => rfl
  | function n args ih =>
    obtain ⟨-, parts⟩ := (all_function n args).mp legible
    rw [enclose_function]
    exact chained_function_map (fun a ha => ih a ha (parts a ha)) n
  | list items s => exact absurd legible.self.1 Bool.false_ne_true
  | parenthesis e ih => exact ih legible.inner
  | unary op e t ih =>
    rw [enclose_unary, chained_unary, chained_unary, chained_wrapIf, ih legible.operand.2]
  | range e low high t u he hlow hhigh =>
    obtain ⟨-, subject, bounds⟩ := legible.operands
    obtain ⟨-, lower, upper⟩ := bounds.operands
    rw [enclose_range, chained_range, chained_range, chained_wrapIf, chained_wrapIf,
      chained_wrapIf, he subject, hlow lower, hhigh upper]
  | binary op l r t plain hl hr =>
    have notRange := legible.plain plain
    obtain ⟨-, left, right⟩ := legible.operands
    rw [enclose_binary plain, chained_binary notRange, chained_binary notRange, chained_wrapIf,
      chained_wrapIf, hl left, hr right]
  | case s arms o hs harms ho =>
    obtain ⟨-, subject, each, branch⟩ := (all_case s arms o).mp legible
    rw [enclose_case]
    refine chained_case_map (fun e he => hs e he (subject e he)) ?_
      fun e he => ho e he (branch e he)
    exact fun arm harm =>
      ⟨(harms arm harm).1 (each arm harm).1, (harms arm harm).2 (each arm harm).2⟩

theorem chained_written {e : Expr} (elementary : e.Elementary) : e.written.chained = e.canonical :=
  chained_enclose (legible_untyped elementary)

end SqlFragment.Expr
