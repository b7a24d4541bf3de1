import SqlFragment.Proofs.Expr.Enclosure
import SqlFragment.Proofs.Grouping.Canonical

/-
The strength of an expression as an operand, and how operands of equal strength are grouped when a
text is read: all of them from the left.
-/
namespace SqlFragment.Expr

/-- The strength of the outermost operator; operands without one are stronger than all operators. -/
def level (e : Expr) : Nat := e.precedence?.getD 12

theorem level_unary (op : UnaryOperator) (e : Expr) (t : DataType) :
    level (.unary op e t) = op.precedence := rfl

theorem level_binary (op : BinaryOperator) (l r : Expr) (t : DataType) :
    level (.binary op l r t) = op.precedence := rfl

theorem precedence_lt (op : BinaryOperator) : op.precedence < 12 := by
  cases op <;> decide

theorem isComparison_eq (op : BinaryOperator) : op.isComparison = decide (op.precedence = 5) := by
  cases op <;> rfl

def isBinary : Expr → Bool
  | .binary .. => true
  | _ => false

/-- An operand that is itself an operation of the same strength and stands there bare. -/
def Joins (op : BinaryOperator) (e : Expr) : Prop :=
  ∃ inner a b t, e = .binary inner a b t ∧ inner.precedence = op.precedence ∧
    op.isComparison = false

/-- An operand without parentheses is stronger than its operator, or joins it. -/
theorem level_of_bare {op : BinaryOperator} {e : Expr} {right : Bool}
    (bare : op.groups e right = false) : op.precedence < e.level ∨ Joins op e := by
  cases e with
  | binary inner a b t =>
    simp only [BinaryOperator.groups, Bool.or_eq_false_iff, decide_eq_false_iff_not, Nat.not_lt,
      Bool.and_eq_false_iff, beq_eq_false_iff_ne] at bare
    by_cases same : inner.precedence = op.precedence
    · refine .inr ⟨inner, a, b, t, rfl, same, ?_⟩
      obtain ⟨-, different | ⟨comparison, -⟩⟩ := bare
      · exact absurd same different
      · exact comparison
    · left
      rw [level_binary]
      omega
  | unary inner a t =>
    simp only [BinaryOperator.groups, decide_eq_false_iff_not, Nat.not_le] at bare
    exact .inl bare
  | _ => exact .inl (precedence_lt op)

theorem bare_of_groupsRight {op : BinaryOperator} {e : Expr} (bare : op.groupsRight e = false) :
    op.groups e true = false := by
  cases e <;> first | rfl | exact bare

theorem precedence_le_level {op : BinaryOperator} {e : Expr}
    (place : op.precedence < e.level ∨ Joins op e) : op.precedence ≤ e.level := by
  obtain strong | ⟨inner, a, b, t, rfl, same, -⟩ := place
  · exact Nat.le_of_lt strong
  · exact Nat.le_of_eq same.symm

theorem lt_level_of_comparison {op : BinaryOperator} {e : Expr} (comparison : op.isComparison = true)
    (place : op.precedence < e.level ∨ Joins op e) : op.precedence < e.level := by
  obtain strong | ⟨_, _, _, _, _, _, other⟩ := place
  · exact strong
  · exact absurd (comparison.symm.trans other) (by decide)

theorem Tight.bare {op : BinaryOperator} {l r : Expr} {t : DataType} (plain : ¬IsRange op r)
    (tight : (Expr.binary op l r t).Tight) : op.groups r true = false :=
  bare_of_groupsRight (tight.operands plain).2.1

theorem Tight.upper_level {e low high : Expr} {t u : DataType}
    (tight : (Expr.binary .between e (.binary .and low high t) u).Tight) :
    BinaryOperator.between.precedence < high.level :=
  lt_level_of_comparison rfl (level_of_bare tight.bounds.2.2.1)

theorem joins_of_same {op inner : BinaryOperator} {e : Expr}
    (same : inner.precedence = op.precedence) (other : op.isComparison = false)
    (place : inner.precedence < e.level ∨ Joins inner e) :
    op.precedence < e.level ∨ Joins op e := by
  rw [same] at place
  obtain strong | ⟨next, a, b, t, shape, equal, -⟩ := place
  · exact .inl strong
  · exact .inr ⟨next, a, b, t, shape, equal.trans same, other⟩

/-- Puts an operator and its left operand before an expression that has operators of the same
strength: the operand goes to the first of them. -/
def attach (op : BinaryOperator) (left right : Expr) : Expr :=
  graft (fun inner => inner.precedence == op.precedence) op left right

theorem attach_of_ne {op : BinaryOperator} {right : Expr} (other : right.level ≠ op.precedence)
    (left : Expr) : attach op left right = combine op left right := by
  cases right with
  | binary inner a b t =>
    have other : inner.precedence ≠ op.precedence := other
    simp only [attach, graft, beq_eq_false_iff_ne.mpr other, Bool.false_eq_true, ↓reduceIte]
  | _ => rfl

theorem attach_binary {op inner : BinaryOperator} (same : inner.precedence = op.precedence)
    (left a b : Expr) (t : DataType) :
    attach op left (.binary inner a b t) = .binary inner (attach op left a) b t := by
  simp only [attach, graft, same, beq_self_eq_true, ↓reduceIte]

theorem level_attach (op : BinaryOperator) (left right : Expr) :
    (attach op left right).level = op.precedence := by
  by_cases same : right.level = op.precedence
  · cases right with
    | binary inner a b t => rw [attach_binary same, level_binary]; exact same
    | _ => rfl
  · rw [attach_of_ne same]
    rfl

theorem attach_attach {op inner : BinaryOperator} (same : inner.precedence = op.precedence)
    (left a b : Expr) :
    attach op left (attach inner a b) = attach inner (attach op left a) b := by
  simp only [attach, same]
  exact graft_graft (by simpa using same) op left a b

def regroupNode : Expr → Expr
  | .binary op l r _ => attach op l r
  | e => e

/-- An expression with every chain of operators of one strength grouped from the left. -/
def regroup (e : Expr) : Expr := e.rewrite regroupNode

theorem regroup_binary (op : BinaryOperator) (l r : Expr) (t : DataType) :
    regroup (.binary op l r t) = attach op l.regroup r.regroup := rfl

theorem regroup_unary (op : UnaryOperator) (e : Expr) (t : DataType) :
    regroup (.unary op e t) = .unary op e.regroup t := rfl

theorem regroup_function (n : String) (args : List Expr) :
    regroup (.function n args) = .function n (args.map regroup) := rewrite_function _ n args

theorem regroup_case (s : Option Expr) (arms : List (Expr × Expr)) (o : Option Expr) :
    regroup (.case s arms o) =
      .case (s.map regroup) (arms.map fun arm => (regroup arm.1, regroup arm.2)) (o.map regroup) :=
  rewrite_case _ s arms o

theorem level_regroup (e : Expr) : e.regroup.level = e.level := by
  cases e with
  | binary op l r t => exact level_attach op l.regroup r.regroup
  | _ => rfl

/-- The bounds of a range are stronger than the range, so none of its parts moves. -/
theorem regroup_range {low high : Expr} (upper : BinaryOperator.between.precedence < high.level)
    (e : Expr) (t u : DataType) :
    regroup (.binary .between e (.binary .and low high t) u) =
      between e.regroup low.regroup high.regroup := by
  have bounds : attach .and low.regroup high.regroup = combine .and low.regroup high.regroup := by
    refine attach_of_ne ?_ low.regroup
    rw [level_regroup]
    have weaker : BinaryOperator.and.precedence < BinaryOperator.between.precedence := by decide
    omega
  rw [regroup_binary, regroup_binary, bounds]
  refine attach_of_ne ?_ e.regroup
  rw [combine, level_binary]
  decide

end SqlFragment.Expr
