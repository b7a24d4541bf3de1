import SqlFragment.Proofs.Grouping.Uniform

/-
Regrouped expressions: they are written like the expressions they come from, without further
parentheses, and no right operand joins its operator.
-/
namespace SqlFragment.Expr

section
variable {P : Expr → Prop} {op : BinaryOperator} {left right : Expr}

/-- What does not depend on left operands survives attaching. -/
theorem all_attach
    (keeps : ∀ {inner a b t} (a' : Expr), P (.binary inner a b t) → P (.binary inner a' b t))
    (node : ∀ r : Expr, r.strand op.precedence = [] → P (combine op left r)) (first : left.All P)
    (second : right.All P) : (attach op left right).All P := by
  induction right using inductionOnStrand op with
  | joined inner a b t same ih =>
    obtain ⟨here, front, back⟩ := (all_binary inner a b t).mp second
    rw [attach_binary same]
    exact (all_binary _ _ _ _).mpr ⟨keeps _ here, ih front, back⟩
  | apart right apart =>
    rw [attach_of_strand apart]
    exact (all_binary _ _ _ _).mpr ⟨node right apart, first, second⟩

theorem legible_attach (other : op ≠ .between) (first : left.Legible) (second : right.Legible) :
    (attach op left right).Legible := by
  refine all_attach ?_ ?_ first second
  · rintro inner a b t a' ⟨node, untyped⟩
    simp only [untypedNode, combine, binary.injEq, true_and] at untyped
    rw [← untyped]
    exact ⟨elementaryNode_binary.mpr (elementaryNode_binary.mp node), rfl⟩
  · intro r _
    exact ⟨elementaryNode_binary.mpr fun same => absurd same other, rfl⟩

end

theorem legible_regroup {e : Expr} (tight : e.Tight) (legible : e.Legible) : e.regroup.Legible := by
  induction e, tight, legible using inductionOnLegible with
  | literal _ _ _ legible | parameter _ _ legible | column _ _ legible => exact legible
  | function n args _ legible ih =>
    rw [regroup_function]
    exact all_function_map ⟨legible.self.1, rfl⟩ ih
  | parenthesis e _ _ ih => exact (all_parenthesis _).mpr ⟨⟨rfl, rfl⟩, ih⟩
  | unary op e _ _ ih => exact (all_unary op _ _).mpr ⟨⟨rfl, rfl⟩, ih⟩
  | range e low high tight _ he hlow hhigh =>
    rw [regroup_range tight.upper_level]
    exact (all_binary _ _ _ _).mpr
      ⟨⟨rfl, rfl⟩, he, (all_binary _ _ _ _).mpr ⟨⟨rfl, rfl⟩, hlow, hhigh⟩⟩
  | binary op l r other _ _ _ hl hr => exact legible_attach other hl hr
  | case s arms o _ _ hs harms ho =>
    rw [regroup_case]
    exact all_case_map ⟨rfl, rfl⟩ hs harms ho

def leftNode : Expr → Bool
  | .binary op _ r _ => (r.strand op.precedence).isEmpty
  | _ => true

theorem leftGrouped_regroup (e : Expr) : e.regroup.All fun x => x.leftNode := by
  have attached : ∀ (op : BinaryOperator) (l r : Expr), l.All (fun x => x.leftNode) →
      r.All (fun x => x.leftNode) → (attach op l r).All fun x => x.leftNode := by
    intro op l r left right
    refine all_attach (fun _ node => node) ?_ left right
    intro r none
    simp [combine, leftNode, none]
  induction e using inductionOnParts with
  | literal | parameter | column | table | raw => exact (all_leaf rfl).mpr rfl
  | function n args ih =>
    rw [regroup_function]
    exact all_function_map rfl ih
  | list items s ih =>
    rw [regroup, rewrite_list]
    exact all_list_map rfl ih
  | parenthesis e ih => exact (all_parenthesis _).mpr ⟨rfl, ih⟩
  | unary op e t ih => exact (all_unary op _ t).mpr ⟨rfl, ih⟩
  | range e low high t u he hlow hhigh => exact attached _ _ _ he (attached _ _ _ hlow hhigh)
  | binary op l r t _ hl hr => exact attached _ _ _ hl hr
  | case s arms o hs harms ho =>
    rw [regroup_case]
    exact all_case_map rfl hs harms ho

theorem uniformNode_of_leftNode {e : Expr} (left : e.leftNode = true) : e.uniformNode = true := by
  cases e with
  | binary op l r t =>
    have none : r.strand op.precedence = [] := by simpa [leftNode] using left
    simp [uniformNode, none]
  | _ => rfl

/-- Operators that may stand side by side in a chain without parentheses. -/
def Alike (op inner : BinaryOperator) : Prop :=
  op = inner ∨ (op.isBitwise = false ∧ inner.isBitwise = false)

theorem Alike.symm {op inner : BinaryOperator} (alike : Alike op inner) : Alike inner op := by
  obtain same | ⟨first, second⟩ := alike
  · exact .inl same.symm
  · exact .inr ⟨second, first⟩

theorem Alike.trans {op inner next : BinaryOperator} (first : Alike op inner)
    (second : Alike inner next) : Alike op next := by
  obtain rfl | ⟨a, b⟩ := first
  · exact second
  · obtain rfl | ⟨-, c⟩ := second
    · exact .inr ⟨a, b⟩
    · exact .inr ⟨a, c⟩

theorem alike_of_bare {op inner : BinaryOperator} {a b : Expr} {t : DataType} {right : Bool}
    (bare : op.groups (.binary inner a b t) right = false) (same : inner.precedence = op.precedence) :
    Alike op inner ∧ op.isComparison = false := by
  simp only [BinaryOperator.groups, same, Nat.lt_irrefl, decide_false, Bool.false_or,
    beq_self_eq_true, Bool.true_and, Bool.or_eq_false_iff, Bool.and_eq_false_iff] at bare
  obtain ⟨mixed, comparison, -⟩ := bare
  refine ⟨?_, comparison⟩
  obtain equal | ⟨first, second⟩ := mixed
  · exact .inl (by simpa using equal : inner = op).symm
  · exact .inr ⟨second, first⟩

theorem bare_of_alike {op inner : BinaryOperator} (alike : Alike op inner)
    (same : inner.precedence = op.precedence) (other : op.isComparison = false) (a b : Expr)
    (t : DataType) : op.groups (.binary inner a b t) false = false := by
  simp only [BinaryOperator.groups, same, Nat.lt_irrefl, decide_false, Bool.false_or,
    beq_self_eq_true, Bool.true_and, other, Bool.false_and, Bool.or_false]
  obtain rfl | ⟨first, second⟩ := alike
  · simp
  · simp [first, second]

theorem isBitwise_eq (op : BinaryOperator) :
    op.isBitwise = decide (6 ≤ op.precedence ∧ op.precedence ≤ 8) := by
  cases op <;> rfl

/-- Whether a stronger operand is enclosed depends on the two strengths. -/
theorem groups_of_lt {op : BinaryOperator} {e : Expr} (strong : op.precedence < e.level)
    (right : Bool) :
    op.groups e right = (e.isBinary && (decide (6 ≤ e.level ∧ e.level ≤ 8) || op.isBitwise)) := by
  cases e with
  | binary inner a b t =>
    rw [level_binary] at strong
    have different : inner ≠ op := by
      rintro rfl
      omega
    have weak : ¬inner.precedence < op.precedence := by omega
    have unequal : inner.precedence ≠ op.precedence := by omega
    simp only [BinaryOperator.groups, weak, decide_false, Bool.false_or, bne_iff_ne.mpr different,
      beq_eq_false_iff_ne.mpr unequal, Bool.false_and, Bool.or_false, Bool.true_and,
      isBitwise_eq inner]
    rfl
  | unary inner a t =>
    have weak : ¬inner.precedence ≤ op.precedence := Nat.not_le.mpr strong
    simp only [BinaryOperator.groups, weak, decide_false]
    rfl
  | _ => rfl

theorem binary_of_mem_strand {strength : Nat} {e : Expr} {o : BinaryOperator}
    (mem : o ∈ e.strand strength) :
    ∃ inner a b t, e = .binary inner a b t ∧ inner.precedence = strength := by
  cases e with
  | binary inner a b t =>
    refine ⟨inner, a, b, t, rfl, ?_⟩
    by_cases same : inner.precedence = strength
    · exact same
    · have none : (Expr.binary inner a b t).strand strength = [] := strand_of_ne same
      rw [none] at mem
      cases mem
  | _ => cases mem

theorem alike_of_mem_strand {e : Expr} (tight : e.Tight) {op : BinaryOperator} {right : Bool}
    (bare : op.groups e right = false) {o : BinaryOperator} (mem : o ∈ e.strand op.precedence) :
    Alike op o := by
  induction e using inductionOnParts generalizing op right with
  | range subject low high t u =>
    obtain ⟨_, _, _, _, ⟨⟩, same⟩ := binary_of_mem_strand mem
    have comparison := (alike_of_bare bare same).2
    rw [isComparison_eq, ← same] at comparison
    exact absurd comparison (by decide)
  | binary inner a b t plain ha hb =>
    obtain ⟨_, _, _, _, ⟨⟩, same⟩ := binary_of_mem_strand mem
    obtain ⟨⟨left, tightLeft⟩, right, tightRight⟩ := tight.operands plain
    have outer := (alike_of_bare bare same).1
    rw [← same, strand_binary] at mem
    obtain first | second := List.mem_append.mp mem
    · exact outer.trans (ha tightLeft left first)
    · obtain rfl | later := List.mem_cons.mp second
      · exact outer
      · exact outer.trans (hb tightRight (bare_of_groupsRight right) later)
  | _ => cases mem

section
variable {op : BinaryOperator} {left right : Expr}

theorem top_attach (op : BinaryOperator) (left right : Expr) :
    ∃ o a b t, attach op left right = .binary o a b t ∧ o.precedence = op.precedence ∧
      (o = op ∨ o ∈ right.strand op.precedence) := by
  induction right using inductionOnStrand op with
  | joined inner a b t same =>
    exact ⟨inner, _, b, t, attach_binary same left a b t, same, .inr (by simp [strand, same])⟩
  | apart right apart => exact ⟨op, left, right, _, attach_of_strand apart left, rfl, .inl rfl⟩

theorem not_range_of_same {inner : BinaryOperator} {b : Expr}
    (same : inner.precedence = op.precedence) (other : op.isComparison = false) :
    ¬IsRange inner b := by
  refine not_isRange_of_ne ?_
  rintro rfl
  rw [isComparison_eq, ← same] at other
  exact absurd other (by decide)

theorem groupsRight_of_legible {e : Expr} (legible : e.Legible) :
    op.groupsRight e = op.groups e true := by
  cases e with
  | list items s => exact absurd legible.self.1 Bool.false_ne_true
  | _ => rfl

theorem bare_of_same {inner : BinaryOperator} {e : Expr} (same : inner.precedence = op.precedence)
    (bare : inner.groups e false = false) (strong : op.precedence < e.level) :
    op.groups e true = false := by
  rw [groups_of_lt strong, isBitwise_eq, ← same, ← isBitwise_eq, ← groups_of_lt (by omega) false]
  exact bare

/-- What an operand is attached to stays bare under an operator of the same strength. -/
theorem bare_attach {inner : BinaryOperator} {a : Expr} (same : inner.precedence = op.precedence)
    (other : op.isComparison = false) (here : Alike op inner)
    (inside : ∀ o ∈ a.strand op.precedence, Alike op o) :
    inner.groups (attach op left a) false = false := by
  obtain ⟨o, x, y, t, shape, strength, origin⟩ := top_attach op left a
  have near : Alike inner o := by
    obtain rfl | mem := origin
    · exact here.symm
    · exact here.symm.trans (inside o mem)
  have chained : inner.isComparison = false := by
    rw [isComparison_eq, same, ← isComparison_eq, other]
  rw [shape]
  exact bare_of_alike near (strength.trans same.symm) chained x y t

theorem tight_attach (notRange : op ≠ .between) (first : left.Tight) (second : right.Tight)
    (legible : right.Legible) (bare : op.groups left false = false)
    (place : op.precedence < right.level ∨ Joins op right)
    (stronger : op.precedence < right.level → op.groups right true = false)
    (alike : ∀ o ∈ right.strand op.precedence, Alike op o) : (attach op left right).Tight := by
  induction right using inductionOnStrand op with
  | joined inner a b t same ih =>
    obtain strong | ⟨_, _, _, _, ⟨⟩, -, other⟩ := place
    · rw [level_binary] at strong
      omega
    have plain : ¬IsRange inner b := not_range_of_same same other
    obtain ⟨⟨free, tightLeft⟩, freeRight, tightRight⟩ := second.operands plain
    have inside : ∀ o ∈ a.strand op.precedence, Alike op o := fun o ho =>
      alike o (by simp [strand, same, ho])
    have here : Alike op inner := alike inner (by simp [strand, same])
    have front := ih tightLeft legible.operands.2.1
      (joins_of_same same other (level_of_bare free)) (bare_of_same same free) inside
    rw [attach_binary same]
    refine (all_binary _ _ _ _).mpr ⟨?_, front, tightRight⟩
    rw [tightNode_binary plain, freeRight, bare_attach same other here inside]
    rfl
  | apart right apart =>
    obtain strong | ⟨inner, a, b, t, rfl, same, -⟩ := place
    · rw [attach_of_strand apart]
      refine (all_binary _ _ _ _).mpr ⟨?_, first, second⟩
      rw [tightNode_binary (not_isRange_of_ne notRange), bare, groupsRight_of_legible legible,
        stronger strong]
      rfl
    · simp [strand, same] at apart

theorem display_attach (notRange : op ≠ .between)
    (apart : ∀ o ∈ right.strand op.precedence, o ≠ .between)
    (tight : (attach op left right).Tight) (second : right.Tight) :
    (attach op left right).display =
      left.display ++ " " ++ op.spelling ++ " " ++ right.display := by
  induction right using inductionOnStrand op with
  | joined inner a b t same ih =>
    have plain : ¬IsRange inner b := not_isRange_of_ne (apart inner (by simp [strand, same]))
    rw [attach_binary same] at tight ⊢
    have front := ih (fun o ho => apart o (by simp [strand, same, ho]))
      (tight.operands plain).1.2 (second.operands plain).1.2
    rw [tight.display_binary plain, front, second.display_binary plain]
    simp only [String.append_assoc]
  | apart right none =>
    rw [attach_of_strand none] at tight ⊢
    exact tight.display_binary (not_isRange_of_ne notRange)

end

theorem precedence?_regroup (e : Expr) : e.regroup.precedence? = e.precedence? := by
  cases e with
  | binary op l r t =>
    obtain ⟨o, a, b, u, shape, same, -⟩ := top_attach op l.regroup r.regroup
    rw [regroup_binary, shape]
    exact congrArg some same
  | _ => rfl

theorem isBinary_regroup (e : Expr) : e.regroup.isBinary = e.isBinary := by
  cases e with
  | binary op l r t =>
    obtain ⟨o, a, b, u, shape, -⟩ := top_attach op l.regroup r.regroup
    rw [regroup_binary, shape]
    rfl
  | _ => rfl

theorem groups_regroup {op : BinaryOperator} {e : Expr} (strong : op.precedence < e.level)
    (right : Bool) : op.groups e.regroup right = op.groups e right := by
  rw [groups_of_lt (by rwa [level_regroup]), level_regroup, isBinary_regroup, ← groups_of_lt strong]

theorem bare_regroup {op : BinaryOperator} {e : Expr} (tight : e.Tight)
    (bare : op.groups e false = false) : op.groups e.regroup false = false := by
  obtain strong | joins := level_of_bare bare
  · rw [groups_regroup strong]
    exact bare
  · obtain ⟨inner, a, b, t, rfl, same, other⟩ := joins
    obtain ⟨o, x, y, u, shape, strength, origin⟩ := top_attach inner a.regroup b.regroup
    have mem : o ∈ (Expr.binary inner a b t).strand op.precedence := by
      rw [← strand_regroup, regroup_binary, shape, ← same, ← strength, strand_binary]
      simp
    rw [regroup_binary, shape]
    exact bare_of_alike (alike_of_mem_strand tight bare mem) (strength.trans same) other x y u

theorem place_regroup {op : BinaryOperator} {e : Expr}
    (place : op.precedence < e.level ∨ Joins op e) :
    op.precedence < e.regroup.level ∨ Joins op e.regroup := by
  obtain strong | ⟨inner, a, b, t, rfl, same, other⟩ := place
  · exact .inl (by rwa [level_regroup])
  · obtain ⟨o, x, y, u, shape, strength, -⟩ := top_attach inner a.regroup b.regroup
    exact .inr ⟨o, x, y, u, shape, strength.trans same, other⟩

theorem precedence_of_mem_strand {strength : Nat} {e : Expr} {o : BinaryOperator}
    (mem : o ∈ e.strand strength) : o.precedence = strength := by
  fun_induction strand strength e with
  | case1 op l r t same hl hr =>
    obtain first | second := List.mem_append.mp mem
    · exact hl first
    · obtain rfl | later := List.mem_cons.mp second
      · exact same
      · exact hr later
  | case2 | case3 => cases mem

/-- No range test stands in a chain of bare operators. -/
theorem not_between_of_mem_strand {op : BinaryOperator} {e : Expr}
    (place : op.precedence < e.level ∨ Joins op e) {o : BinaryOperator}
    (mem : o ∈ e.strand op.precedence) : o ≠ .between := by
  rintro rfl
  have strength := precedence_of_mem_strand mem
  obtain strong | ⟨_, _, _, _, _, _, other⟩ := place
  · obtain ⟨inner, a, b, t, rfl, same⟩ := binary_of_mem_strand mem
    rw [level_binary] at strong
    omega
  · rw [isComparison_eq, ← strength] at other
    exact absurd other (by decide)

theorem not_between_of_mem_regroup {op : BinaryOperator} {e : Expr}
    (bare : op.groups e true = false) :
    ∀ o ∈ e.regroup.strand op.precedence, o ≠ .between := by
  rw [strand_regroup]
  exact fun o mem => not_between_of_mem_strand (level_of_bare bare) mem

theorem tight_attach_regroup {op : BinaryOperator} {l r : Expr} {t : DataType}
    (other : op ≠ .between) (plain : ¬IsRange op r) (tight : (Expr.binary op l r t).Tight)
    (legible : r.Legible) (left : l.regroup.Tight) (right : r.regroup.Tight) :
    (attach op l.regroup r.regroup).Tight := by
  obtain ⟨⟨bareLeft, tightLeft⟩, -, tightRight⟩ := tight.operands plain
  have bareRight := tight.bare plain
  refine tight_attach other left right (legible_regroup tightRight legible)
    (bare_regroup tightLeft bareLeft) (place_regroup (level_of_bare bareRight)) ?_ ?_
  · intro strong
    rw [level_regroup] at strong
    rwa [groups_regroup strong]
  · rw [strand_regroup]
    exact fun o mem => alike_of_mem_strand tightRight bareRight mem

theorem tight_range_regroup {e low high : Expr} {t u : DataType}
    (tight : (Expr.binary .between e (.binary .and low high t) u).Tight)
    (subject : e.regroup.Tight) (lower : low.regroup.Tight) (upper : high.regroup.Tight) :
    (between e.regroup low.regroup high.regroup).Tight := by
  obtain ⟨⟨bare, tightSubject⟩, ⟨bottom, -⟩, top, -⟩ := tight.bounds
  have strongLow := lt_level_of_comparison rfl (level_of_bare bottom)
  rw [← groups_regroup strongLow] at bottom
  rw [← groups_regroup tight.upper_level] at top
  exact tight_range (bare_regroup tightSubject bare) bottom top subject lower upper _ _

/-- A regrouped expression is written as before. -/
theorem tight_display_regroup {e : Expr} (tight : e.Tight) (legible : e.Legible) :
    e.regroup.Tight ∧ e.regroup.display = e.display := by
  induction e, tight, legible using inductionOnLegible with
  | literal _ _ tight | parameter _ tight | column _ tight => exact ⟨tight, rfl⟩
  | function n args _ _ ih =>
    rw [regroup_function]
    exact ⟨all_function_map rfl fun a mem => (ih a mem).1,
      display_function_map (fun a mem => (ih a mem).2) n⟩
  | parenthesis e _ _ ih => exact ⟨(all_parenthesis _).mpr ⟨rfl, ih.1⟩, congrArg enclosed ih.2⟩
  | unary op e tight _ ih =>
    obtain ⟨inner, text⟩ := ih
    have same : op.groups e.regroup e.regroup.display = op.groups e e.display := by
      rw [text, UnaryOperator.groups, UnaryOperator.groups, precedence?_regroup]
    rw [regroup_unary]
    refine ⟨(all_unary op _ _).mpr ⟨?_, inner⟩, ?_⟩
    · rw [tightNode, same, tight.operand.1]
      rfl
    · rw [display, display, UnaryOperator.write, UnaryOperator.write, same, text]
  | range e low high tight _ he hlow hhigh =>
    have whole := tight_range_regroup tight he.1 hlow.1 hhigh.1
    rw [regroup_range tight.upper_level]
    refine ⟨whole, ?_⟩
    rw [tight.display_range, ← he.2, ← hlow.2, ← hhigh.2]
    exact whole.display_range
  | binary op l r other plain tight legible hl hr =>
    have whole := tight_attach_regroup other plain tight legible.operands.2.2 hl.1 hr.1
    have apart := not_between_of_mem_regroup (tight.bare plain)
    rw [regroup_binary]
    refine ⟨whole, ?_⟩
    rw [display_attach other apart whole hr.1, tight.display_binary plain, hl.2, hr.2]
  | case s arms o _ _ hs harms ho =>
    rw [regroup_case]
    exact ⟨all_case_map rfl (fun e mem => (hs e mem).1)
        (fun arm mem => ⟨(harms arm mem).1.1, (harms arm mem).2.1⟩) fun e mem => (ho e mem).1,
      display_case_map (fun e mem => (hs e mem).2)
        (fun arm mem => ⟨(harms arm mem).1.2, (harms arm mem).2.2⟩) fun e mem => (ho e mem).2⟩

end SqlFragment.Expr
