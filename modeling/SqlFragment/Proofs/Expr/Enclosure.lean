import SqlFragment.Proofs.Expr.Traversal

/-
The parentheses that writing adds, put into the tree: an expression and its enclosed form have the
same text, and nothing more is added when the enclosed form is written.
-/
namespace SqlFragment

/-- Whether the right operand gets parentheses; a list does after a membership test. -/
def BinaryOperator.groupsRight (op : BinaryOperator) (operand : Expr) : Bool :=
  match operand with
  | .list .. => op.isMembership
  | e => op.groups e true

namespace Expr

def wrapIf (needed : Bool) (e : Expr) : Expr := if needed then .parenthesis e else e

def encloseNode : Expr → Expr
  | .unary op e t => .unary op (wrapIf (op.groups e e.display) e) t
  | .binary .between e (.binary .and low high t) u =>
    .binary .between (wrapIf (BinaryOperator.between.groups e false) e)
      (.binary .and (wrapIf (BinaryOperator.between.groups low true) low)
        (wrapIf (BinaryOperator.between.groups high true) high) t) u
  | .binary op l r t => .binary op (wrapIf (op.groups l false) l) (wrapIf (op.groupsRight r) r) t
  | e => e

/-- An expression with all the parentheses that it is written with. -/
def enclose (e : Expr) : Expr := e.rewrite encloseNode

def tightNode : Expr → Bool
  | .unary op e _ => !op.groups e e.display
  | .binary .between e (.binary .and low high _) _ =>
    !BinaryOperator.between.groups e false && !BinaryOperator.between.groups low true &&
      !BinaryOperator.between.groups high true
  | .binary op l r _ => !op.groups l false && !op.groupsRight r
  | _ => true

/-- Expressions that hold all the parentheses that they are written with. -/
def Tight (e : Expr) : Prop := e.All fun x => x.tightNode

theorem encloseNode_binary {op : BinaryOperator} {r : Expr} (plain : ¬IsRange op r) (l : Expr)
    (t : DataType) :
    encloseNode (.binary op l r t) =
      .binary op (wrapIf (op.groups l false) l) (wrapIf (op.groupsRight r) r) t := by
  refine encloseNode.eq_3 op l r t ?_
  intro low high u isBetween isAnd
  exact plain ⟨low, high, u, isBetween, isAnd⟩

theorem tightNode_binary {op : BinaryOperator} {r : Expr} (plain : ¬IsRange op r) (l : Expr)
    (t : DataType) :
    tightNode (.binary op l r t) = (!op.groups l false && !op.groupsRight r) := by
  refine tightNode.eq_3 op l r t ?_
  intro low high u isBetween isAnd
  exact plain ⟨low, high, u, isBetween, isAnd⟩

theorem display_binary {op : BinaryOperator} {r : Expr} (plain : ¬IsRange op r) (l : Expr)
    (t : DataType) :
    (Expr.binary op l r t).display = op.writeOperand l false l.display ++ " " ++ op.spelling ++
      " " ++ op.writeRight r r.display := by
  refine display.eq_11 op l r t ?_
  intro low high u isBetween isAnd
  exact plain ⟨low, high, u, isBetween, isAnd⟩

def leftText (op : BinaryOperator) (l : Expr) : String :=
  op.writeOperand l false l.display ++ " " ++ op.spelling ++ " "

/-- Whether an operand is enclosed depends on its outermost operator, which enclosing keeps. -/
theorem groups_enclose (op : BinaryOperator) (e : Expr) (right : Bool) :
    op.groups e.enclose right = op.groups e right := by
  cases e with
  | binary inner l r t =>
    simp only [enclose, rewrite]
    rw [encloseNode.eq_def]
    split <;> simp_all [BinaryOperator.groups]
  | _ => rfl

theorem precedence?_enclose (e : Expr) : e.enclose.precedence? = e.precedence? := by
  cases e with
  | binary inner l r t =>
    simp only [enclose, rewrite]
    rw [encloseNode.eq_def]
    split <;> simp_all [precedence?]
  | _ => rfl

theorem enclose_unary (op : UnaryOperator) (e : Expr) (t : DataType) :
    enclose (.unary op e t) =
      .unary op (wrapIf (op.groups e.enclose e.enclose.display) e.enclose) t := rfl

theorem isRange_enclose {op : BinaryOperator} {r : Expr} (plain : ¬IsRange op r) :
    ¬IsRange op r.enclose := by
  rintro ⟨low, high, u, isBetween, isAnd⟩
  cases r with
  | binary inner a b v =>
    have same : inner = .and := by
      simp only [enclose, rewrite] at isAnd
      rw [encloseNode.eq_def] at isAnd
      split at isAnd <;> simp_all
    exact plain ⟨a, b, v, isBetween, by rw [same]⟩
  | _ => simp [enclose, rewrite, encloseNode] at isAnd

theorem enclose_binary {op : BinaryOperator} {r : Expr} (plain : ¬IsRange op r) (l : Expr)
    (t : DataType) :
    enclose (.binary op l r t) = .binary op (wrapIf (op.groups l.enclose false) l.enclose)
      (wrapIf (op.groupsRight r.enclose) r.enclose) t :=
  encloseNode_binary (isRange_enclose plain) l.enclose t

theorem groupsRight_of_not_membership {op : BinaryOperator} (other : op.isMembership = false)
    (e : Expr) : op.groupsRight e = op.groups e true := by
  cases e <;> simp [BinaryOperator.groupsRight, BinaryOperator.groups, other]

theorem between_groups_of_and_groups {e : Expr} {right : Bool}
    (enclosed : BinaryOperator.and.groups e right = true) :
    BinaryOperator.between.groups e true = true := by
  revert enclosed
  cases e with
  | binary inner l r t =>
    cases inner <;> cases right <;>
      first | exact fun _ => rfl | exact fun h => absurd h Bool.false_ne_true
  | unary inner e t =>
    cases inner <;> first | exact fun _ => rfl | exact fun h => absurd h Bool.false_ne_true
  | _ => exact fun h => absurd h Bool.false_ne_true

theorem and_groups_eq_false {e : Expr} {right : Bool}
    (bare : BinaryOperator.between.groups e true = false) :
    BinaryOperator.and.groups e right = false := by
  cases needed : BinaryOperator.and.groups e right with
  | false => rfl
  | true => exact absurd (between_groups_of_and_groups needed) (by simp [bare])

theorem wrapIf_wrapIf {op : BinaryOperator} {e : Expr} {needed : Bool}
    (implies : needed = true → op.groups e true = true) :
    wrapIf (op.groups (wrapIf needed e) true) (wrapIf needed e) = wrapIf (op.groups e true) e := by
  cases needed with
  | false => simp [wrapIf]
  | true => rw [implies rfl]; rfl

theorem enclose_range (e low high : Expr) (t u : DataType) :
    enclose (.binary .between e (.binary .and low high t) u) =
      .binary .between (wrapIf (BinaryOperator.between.groups e.enclose false) e.enclose)
        (.binary .and (wrapIf (BinaryOperator.between.groups low.enclose true) low.enclose)
          (wrapIf (BinaryOperator.between.groups high.enclose true) high.enclose) t) u := by
  have bounds : rewrite encloseNode (.binary .and low high t) =
      .binary .and (wrapIf (BinaryOperator.and.groups low.enclose false) low.enclose)
        (wrapIf (BinaryOperator.and.groups high.enclose true) high.enclose) t := by
    rw [rewrite, encloseNode_binary (not_isRange_of_ne (by decide)),
      groupsRight_of_not_membership rfl]
    rfl
  rw [enclose, rewrite, bounds, encloseNode.eq_2,
    wrapIf_wrapIf between_groups_of_and_groups, wrapIf_wrapIf between_groups_of_and_groups]
  rfl

theorem display_wrapIf (needed : Bool) (e : Expr) :
    (wrapIf needed e).display = enclosedIf needed e.display := by
  cases needed <;> rfl

theorem groups_wrapIf (op : BinaryOperator) (e : Expr) (right : Bool) :
    op.groups (wrapIf (op.groups e right) e) right = false := by
  cases needed : op.groups e right with
  | false => simpa [wrapIf] using needed
  | true => rfl

theorem writeOperand_wrapIf (op : BinaryOperator) (e : Expr) (right : Bool) :
    op.writeOperand (wrapIf (op.groups e right) e) right (wrapIf (op.groups e right) e).display =
      op.writeOperand e right e.display := by
  simp only [BinaryOperator.writeOperand, groups_wrapIf, display_wrapIf]
  rfl

theorem groupsRight_wrapIf (op : BinaryOperator) (e : Expr) :
    op.groupsRight (wrapIf (op.groupsRight e) e) = false := by
  cases needed : op.groupsRight e with
  | false => simpa [wrapIf] using needed
  | true => rfl

theorem writeRight_eq (op : BinaryOperator) (e : Expr) (text : String) :
    op.writeRight e text = enclosedIf (op.groupsRight e) text := by
  cases e <;> rfl

theorem enclosedIf_eq_enclosed_iff {needed : Bool} {text : String} :
    enclosedIf needed text = enclosed text ↔ needed = true := by
  constructor
  · intro same
    have marks : "(".length = 1 ∧ ")".length = 1 := by decide
    have lengths := congrArg String.length same
    cases needed with
    | true => rfl
    | false =>
      simp only [enclosedIf, enclosed, Bool.false_eq_true, ↓reduceIte, String.length_append] at lengths
      omega
  · rintro rfl
    rfl

theorem startsWithSign_enclosed (text : String) : startsWithSign (enclosed text) = false := by
  simp [startsWithSign, enclosed]

theorem unary_groups_wrapIf (op : UnaryOperator) (e : Expr) :
    op.groups (wrapIf (op.groups e e.display) e) (wrapIf (op.groups e e.display) e).display =
      false := by
  cases needed : op.groups e e.display with
  | false => simpa [wrapIf] using needed
  | true =>
    have shown : (wrapIf true e).display = enclosed e.display := display_wrapIf true e
    rw [UnaryOperator.groups, shown, startsWithSign_enclosed, Bool.and_false, Bool.or_false]
    rfl

theorem unary_write_wrapIf (op : UnaryOperator) (e : Expr) :
    op.write (wrapIf (op.groups e e.display) e) (wrapIf (op.groups e e.display) e).display =
      op.write e e.display := by
  have free := unary_groups_wrapIf op e
  simp only [UnaryOperator.write]
  rw [free, display_wrapIf]
  rfl

theorem enclose_function (n : String) (args : List Expr) :
    enclose (.function n args) = .function n (args.map enclose) := rewrite_function _ n args

theorem enclose_list (items : List Expr) (s : String) :
    enclose (.list items s) = .list (items.map enclose) s := rewrite_list _ items s

theorem enclose_case (s : Option Expr) (arms : List (Expr × Expr)) (o : Option Expr) :
    enclose (.case s arms o) =
      .case (s.map enclose) (arms.map fun arm => (enclose arm.1, enclose arm.2)) (o.map enclose) :=
  rewrite_case _ s arms o

theorem groupsRight_enclose (op : BinaryOperator) (e : Expr) :
    op.groupsRight e.enclose = op.groupsRight e := by
  cases e with
  | list items s => rfl
  | binary inner l r t =>
    have same := groups_enclose op (.binary inner l r t) true
    simp only [enclose, rewrite] at same ⊢
    rw [encloseNode.eq_def] at same ⊢
    split at same <;> simp_all [BinaryOperator.groupsRight]
  | _ => rfl

theorem isRange_wrapIf_enclose {op : BinaryOperator} {r : Expr} (plain : ¬IsRange op r) :
    ¬IsRange op (wrapIf (op.groupsRight r.enclose) r.enclose) := by
  rintro ⟨low, high, u, isBetween, isAnd⟩
  cases needed : op.groupsRight r.enclose with
  | true => simp [wrapIf, needed] at isAnd
  | false =>
    simp only [wrapIf, needed, Bool.false_eq_true, ↓reduceIte] at isAnd
    exact isRange_enclose plain ⟨low, high, u, isBetween, isAnd⟩

theorem tight_wrapIf {needed : Bool} {e : Expr} (tight : e.Tight) : (wrapIf needed e).Tight := by
  cases needed with
  | false => exact tight
  | true => exact (all_parenthesis e).mpr ⟨rfl, tight⟩

theorem tight_range {e low high : Expr} (subject : BinaryOperator.between.groups e false = false)
    (lower : BinaryOperator.between.groups low true = false)
    (upper : BinaryOperator.between.groups high true = false) (tightSubject : e.Tight)
    (tightLow : low.Tight) (tightHigh : high.Tight) (t u : DataType) :
    (Expr.binary .between e (.binary .and low high t) u).Tight := by
  refine (all_binary _ _ _ _).mpr
    ⟨?_, tightSubject, (all_binary _ _ _ _).mpr ⟨?_, tightLow, tightHigh⟩⟩
  · simp only [tightNode, subject, lower, upper, Bool.not_false, Bool.and_self]
  · rw [tightNode_binary (not_isRange_of_ne (by decide)), groupsRight_of_not_membership rfl,
      and_groups_eq_false lower, and_groups_eq_false upper]
    rfl

/-- Writing adds exactly the parentheses of the enclosed form. -/
theorem display_enclose (e : Expr) : e.enclose.display = e.display := by
  induction e using inductionOnParts with
  | literal | parameter | column | table | raw => rfl
  | function n args ih =>
    rw [enclose_function]
    exact display_function_map ih n
  | list items s ih =>
    rw [enclose_list]
    exact display_list_map ih s
  | parenthesis e ih => exact congrArg enclosed ih
  | unary op e t ih =>
    rw [enclose_unary, display, unary_write_wrapIf, display, ih]
    simp only [UnaryOperator.write, UnaryOperator.groups, precedence?_enclose]
  | range e low high t u he hlow hhigh =>
    rw [enclose_range]
    simp only [display, writeOperand_wrapIf, he, hlow, hhigh]
    simp only [BinaryOperator.writeOperand, groups_enclose]
  | binary op l r t plain hl hr =>
    rw [enclose_binary plain, display_binary (isRange_wrapIf_enclose plain), display_binary plain,
      writeOperand_wrapIf, writeRight_eq, groupsRight_wrapIf, display_wrapIf, hl, hr, writeRight_eq]
    simp only [BinaryOperator.writeOperand, groups_enclose, groupsRight_enclose]
    rfl
  | case s arms o hs harms ho =>
    rw [enclose_case]
    exact display_case_map hs harms ho

theorem tight_enclose (e : Expr) : e.enclose.Tight := by
  induction e using inductionOnParts with
  | literal | parameter | column | table | raw => exact (all_leaf rfl).mpr rfl
  | function n args ih =>
    rw [enclose_function]
    exact all_function_map rfl ih
  | list items s ih =>
    rw [enclose_list]
    exact all_list_map rfl ih
  | parenthesis e ih => exact (all_parenthesis _).mpr ⟨rfl, ih⟩
  | unary op e t ih =>
    rw [enclose_unary, Tight, all_unary]
    exact ⟨by simp only [tightNode, unary_groups_wrapIf, Bool.not_false], tight_wrapIf ih⟩
  | range e low high t u he hlow hhigh =>
    rw [enclose_range]
    exact tight_range (groups_wrapIf _ _ _) (groups_wrapIf _ _ _) (groups_wrapIf _ _ _)
      (tight_wrapIf he) (tight_wrapIf hlow) (tight_wrapIf hhigh) t u
  | binary op l r t plain hl hr =>
    rw [enclose_binary plain, Tight, all_binary, tightNode_binary (isRange_wrapIf_enclose plain)]
    exact ⟨by simp only [groups_wrapIf, groupsRight_wrapIf, Bool.not_false, Bool.and_self],
      tight_wrapIf hl, tight_wrapIf hr⟩
  | case s arms o hs harms ho =>
    rw [enclose_case]
    exact all_case_map rfl hs harms ho

section
variable {e l r low high : Expr} {t u : DataType}

theorem Tight.inner (tight : (Expr.parenthesis e).Tight) : e.Tight :=
  ((all_parenthesis e).mp tight).2

theorem Tight.operand {op : UnaryOperator} (tight : (Expr.unary op e t).Tight) :
    op.groups e e.display = false ∧ e.Tight := by
  obtain ⟨node, operand⟩ := (all_unary op e t).mp tight
  exact ⟨by simpa [tightNode] using node, operand⟩

theorem Tight.operands {op : BinaryOperator} (plain : ¬IsRange op r)
    (tight : (Expr.binary op l r t).Tight) :
    (op.groups l false = false ∧ l.Tight) ∧ op.groupsRight r = false ∧ r.Tight := by
  obtain ⟨node, left, right⟩ := (all_binary op l r t).mp tight
  rw [tightNode_binary plain] at node
  simp only [Bool.and_eq_true, Bool.not_eq_true'] at node
  exact ⟨⟨node.1, left⟩, node.2, right⟩

theorem Tight.bounds (tight : (Expr.binary .between e (.binary .and low high t) u).Tight) :
    (BinaryOperator.between.groups e false = false ∧ e.Tight) ∧
      (BinaryOperator.between.groups low true = false ∧ low.Tight) ∧
        BinaryOperator.between.groups high true = false ∧ high.Tight := by
  obtain ⟨node, subject, bounds⟩ := (all_binary _ _ _ _).mp tight
  obtain ⟨-, lower, upper⟩ := (all_binary _ _ _ _).mp bounds
  simp only [tightNode, Bool.and_eq_true, Bool.not_eq_true'] at node
  exact ⟨⟨node.1.1, subject⟩, ⟨node.1.2, lower⟩, node.2, upper⟩

theorem encloseNode_of_tightNode {e : Expr} (tight : e.tightNode = true) : e.encloseNode = e := by
  have whole : ∀ x : Expr, wrapIf false x = x := fun _ => rfl
  cases e with
  | unary op e t =>
    simp only [tightNode, Bool.not_eq_true'] at tight
    rw [encloseNode, tight, whole]
  | binary op l r t =>
    by_cases range : IsRange op r
    · obtain ⟨low, high, u, rfl, rfl⟩ := range
      simp only [tightNode, Bool.and_eq_true, Bool.not_eq_true'] at tight
      obtain ⟨⟨subject, lower⟩, upper⟩ := tight
      rw [encloseNode, subject, lower, upper, whole, whole, whole]
    · rw [tightNode_binary range] at tight
      simp only [Bool.and_eq_true, Bool.not_eq_true'] at tight
      rw [encloseNode_binary range, tight.1, tight.2, whole, whole]
  | _ => rfl

theorem enclose_of_tight (tight : e.Tight) : e.enclose = e :=
  rewrite_eq_self encloseNode fun x listed => encloseNode_of_tightNode (tight x listed)

def beforeOperand (op : UnaryOperator) (text : String) : String :=
  if op.isKeyword then op.spelling ++ " " ++ text else op.spelling ++ text

theorem Tight.display_before {op : UnaryOperator} (place : op.position = .before)
    (tight : (Expr.unary op e t).Tight) :
    (Expr.unary op e t).display = beforeOperand op e.display := by
  simp only [display, UnaryOperator.write, tight.operand.1, place]
  cases keyword : op.isKeyword <;> simp [beforeOperand, keyword, enclosedIf]

theorem Tight.display_after {op : UnaryOperator} (place : op.position = .after)
    (tight : (Expr.unary op e t).Tight) :
    (Expr.unary op e t).display = e.display ++ " " ++ op.spelling := by
  simp only [display, UnaryOperator.write, tight.operand.1, place, enclosedIf, Bool.false_eq_true,
    ↓reduceIte]

theorem Tight.display_binary {op : BinaryOperator} (plain : ¬IsRange op r)
    (tight : (Expr.binary op l r t).Tight) :
    (Expr.binary op l r t).display = l.display ++ " " ++ op.spelling ++ " " ++ r.display := by
  obtain ⟨⟨left, -⟩, right, -⟩ := tight.operands plain
  rw [Expr.display_binary plain, BinaryOperator.writeOperand, left, writeRight_eq, right]
  rfl

theorem Tight.display_range
    (tight : (Expr.binary .between e (.binary .and low high t) u).Tight) :
    (Expr.binary .between e (.binary .and low high t) u).display =
      e.display ++ " BETWEEN " ++ (low.display ++ " AND " ++ high.display) := by
  obtain ⟨⟨subject, -⟩, ⟨lower, -⟩, upper, -⟩ := tight.bounds
  simp only [display, BinaryOperator.writeOperand, subject, lower, upper, enclosedIf,
    Bool.false_eq_true, ↓reduceIte]

end

end Expr
end SqlFragment
