import SqlFragment.Proofs.Grouping.Written

/-
When a text shows the grouping. A chain of one associative operator is written without parentheses,
which loses nothing as long as no other operator of the same strength stands bare inside it.
-/
namespace SqlFragment.Expr

/-- The operators of one strength that stand bare in the text of an expression. -/
def strand (strength : Nat) : Expr → List BinaryOperator
  | .binary op l r _ =>
    if op.precedence = strength then l.strand strength ++ op :: r.strand strength else []
  | _ => []

def uniformNode : Expr → Bool
  | .binary op _ r _ => (r.strand op.precedence).all fun inner => inner = op
  | _ => true

/-- Expressions in which the bare operators of a right operand are either stronger than its own
operator or that operator itself. -/
def Uniform (e : Expr) : Prop := e.written.All fun x => x.uniformNode

instance (e : Expr) : Decidable e.Uniform := inferInstanceAs (Decidable (e.written.All _))

theorem strand_of_ne {e : Expr} {strength : Nat} (other : e.level ≠ strength) :
    e.strand strength = [] := by
  cases e with
  | binary op l r t =>
    have other : op.precedence ≠ strength := other
    simp only [strand, other, ↓reduceIte]
  | _ => rfl

theorem strand_binary (op : BinaryOperator) (l r : Expr) (t : DataType) :
    (Expr.binary op l r t).strand op.precedence =
      l.strand op.precedence ++ op :: r.strand op.precedence := by
  simp only [strand, ↓reduceIte]

/-- Induction along the chain that an operand is attached to, down to its first operand. -/
theorem inductionOnStrand (op : BinaryOperator) {P : Expr → Prop}
    (joined : ∀ inner a b t, inner.precedence = op.precedence → P a → P (.binary inner a b t))
    (apart : ∀ e : Expr, e.strand op.precedence = [] → P e) (e : Expr) : P e := by
  fun_induction strand op.precedence e with
  | case1 inner l r t same hl => exact joined inner l r t same hl
  | case2 inner l r t other => exact apart _ (strand_of_ne other)
  | case3 e shape =>
    refine apart e ?_
    cases e with
    | binary inner l r t => exact absurd rfl (shape inner l r t)
    | _ => rfl

theorem attach_of_strand {op : BinaryOperator} {right : Expr}
    (apart : right.strand op.precedence = []) (left : Expr) :
    attach op left right = combine op left right := by
  cases right with
  | binary inner a b t =>
    refine attach_of_ne ?_ left
    intro same
    rw [level_binary] at same
    simp [strand, same] at apart
  | _ => rfl

theorem strand_attach (op : BinaryOperator) (left right : Expr) :
    (attach op left right).strand op.precedence =
      left.strand op.precedence ++ op :: right.strand op.precedence := by
  induction right using inductionOnStrand op with
  | joined inner a b t same ih =>
    rw [attach_binary same]
    simp only [strand, same, ↓reduceIte, ih, List.append_assoc, List.cons_append]
  | apart right apart => rw [attach_of_strand apart, combine, strand_binary]

theorem strand_regroup (strength : Nat) (e : Expr) :
    e.regroup.strand strength = e.strand strength := by
  fun_induction strand strength e with
  | case1 op l r t same hl hr =>
    subst same
    rw [regroup_binary, strand_attach, hl, hr]
  | case2 op l r t other =>
    refine strand_of_ne ?_
    rwa [level_regroup, level_binary]
  | case3 e shape =>
    cases e with
    | binary op l r t => exact absurd rfl (shape op l r t)
    | _ => rfl

theorem reassociate_reassociate {op : BinaryOperator} (associative : op.isAssociative = true)
    (a b c : Expr) : reassociate op a (reassociate op b c) = reassociate op (reassociate op a b) c :=
  graft_graft (by simp [associative]) op a b c

theorem chained_attach {op : BinaryOperator} (other : op ≠ .between) (left : Expr) {right : Expr}
    (uniform : ∀ inner ∈ right.strand op.precedence, inner = op)
    (associative : right.level = op.precedence → op.isAssociative = true) :
    (attach op left right).chained = reassociate op left.chained right.chained := by
  induction right using inductionOnStrand op with
  | joined inner a b t same ih =>
    have only : inner = op := uniform inner (by simp [strand, same])
    subst only
    have associative := associative same
    have front := ih (fun o ho => uniform o (by simp [strand, ho])) fun _ => associative
    rw [attach_binary same, chained_binary other, chained_binary other, front,
      reassociate_reassociate associative]
  | apart right apart => rw [attach_of_strand apart, combine, chained_binary other]

/-- A right operand that joins its operator is the same operation. -/
theorem associative_of_bare {op : BinaryOperator} {e : Expr} (bare : op.groups e true = false)
    (same : e.level = op.precedence) : op.isAssociative = true := by
  obtain strong | ⟨inner, a, b, t, rfl, -, -⟩ := level_of_bare bare
  · omega
  · rw [level_binary] at same
    simp only [BinaryOperator.groups, same, beq_self_eq_true, Bool.true_and, Bool.or_eq_false_iff,
      Bool.not_eq_false', Bool.and_eq_true] at bare
    exact bare.2.2.2

theorem associative_regroup {op : BinaryOperator} {e : Expr} (bare : op.groups e true = false)
    (same : e.regroup.level = op.precedence) : op.isAssociative = true := by
  rw [level_regroup] at same
  exact associative_of_bare bare same

/-- In a uniform expression, regrouping is only reassociation. -/
theorem chained_regroup {e : Expr} (tight : e.Tight) (legible : e.Legible)
    (uniform : e.All fun x => x.uniformNode) : e.regroup.chained = e.chained := by
  induction e, tight, legible using inductionOnLegible with
  | literal | parameter | column => rfl
  | function n args _ _ ih =>
    rw [regroup_function]
    exact chained_function_map (fun a mem => ih a mem (uniform.argument mem)) n
  | parenthesis e _ _ ih => exact ih ((all_parenthesis e).mp uniform).2
  | unary op e _ _ ih =>
    rw [regroup_unary, chained_unary, chained_unary, ih ((all_unary op e _).mp uniform).2]
  | range e low high tight _ he hlow hhigh =>
    obtain ⟨-, regular, rest⟩ := (all_binary _ _ _ _).mp uniform
    obtain ⟨-, regularLow, regularHigh⟩ := (all_binary _ _ _ _).mp rest
    rw [regroup_range tight.upper_level, between, combine, combine, chained_range, chained_range,
      he regular, hlow regularLow, hhigh regularHigh]
  | binary op l r other plain tight _ hl hr =>
    obtain ⟨node, regularLeft, regularRight⟩ := (all_binary _ _ _ _).mp uniform
    have only : ∀ inner ∈ r.regroup.strand op.precedence, inner = op := by
      rw [strand_regroup]
      simpa [uniformNode] using node
    rw [regroup_binary, chained_attach other l.regroup only (associative_regroup (tight.bare plain)),
      chained_binary other, hl regularLeft, hr regularRight]
  | case s arms o _ _ hs harms ho =>
    rw [regroup_case]
    refine chained_case_map (fun e mem => hs e mem (uniform.subject mem)) ?_
      fun e mem => ho e mem (uniform.branch mem)
    intro arm mem
    obtain ⟨condition, result⟩ := uniform.arm mem
    exact ⟨(harms arm mem).1 condition, (harms arm mem).2 result⟩

/-- Uniform expressions of the same text have the same grouping. -/
theorem canonical_eq_of_display_eq {e e' : Expr} (left : e.Elementary) (right : e'.Elementary)
    (uniform : e.Uniform) (uniform' : e'.Uniform) (same : e.display = e'.display) :
    e.canonical = e'.canonical := by
  have texts : e.written.display = e'.written.display := by
    rw [display_written, display_written, same]
  have read := Grouping.regroup_eq_of_display_eq (tight_written e) (legible_written left)
    (tight_written e') (legible_written right) texts
  calc e.canonical = e.written.chained := (chained_written left).symm
    _ = e.written.regroup.chained :=
      (chained_regroup (tight_written e) (legible_written left) uniform).symm
    _ = e'.written.regroup.chained := by rw [read]
    _ = e'.written.chained := chained_regroup (tight_written e') (legible_written right) uniform'
    _ = e'.canonical := chained_written right

end SqlFragment.Expr
