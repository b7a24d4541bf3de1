import SqlFragment.Proofs.Grammar.Parsed

/-
The shape of what is read. Beside the rules for texts stands a grammar of trees: each rule builds
trees of its form, and from the form of a tree follows what may stand in it, and where. Operators
between operands nest to the right, since nothing but a term is ever put on their left.
-/
namespace SqlFragment.Grammar
open Rule

/-- What a rule builds: an operand that operators may follow, a term or an expression. -/
inductive Form where
  | base
  | term
  | expression

inductive Built : Form → Expr → Prop where
  | literal (v : Value) : Built .base (.value v)
  | parameter {n : String} (named : IsParameter n) : Built .base (.parameter n)
  | column {p : Path} (isPath : IsPath p) : Built .base (.column p)
  | function {n : String} {args : List Expr} (named : isName n = true)
      (arguments : ∀ a ∈ args, Built .expression a) : Built .base (.function n args)
  | group {e : Expr} (inside : Built .expression e) : Built .base (.parenthesis e)
  | tuple {items : List Expr} (several : items.length ≠ 1)
      (inside : ∀ i ∈ items, Built .expression i) : Built .base (.parenthesis (.commaList items))
  | case {subject otherwise : Option Expr} {arms : List (Expr × Expr)} (nonempty : arms ≠ [])
      (subjects : ∀ s ∈ subject, Built .expression s)
      (conditions : ∀ arm ∈ arms, Built .expression arm.1)
      (results : ∀ arm ∈ arms, Built .expression arm.2)
      (branches : ∀ o ∈ otherwise, Built .expression o) :
      Built .base (.case subject arms otherwise)
  | after {op : UnaryOperator} {e : Expr} (place : op.position = .after) (operand : Built .base e) :
      Built .base (.apply op e)
  | ofBase {e : Expr} (alone : Built .base e) : Built .term e
  | before {op : UnaryOperator} {e : Expr} (place : op.position = .before)
      (operand : Built .term e) : Built .term (.apply op e)
  | ofTerm {e : Expr} (alone : Built .term e) : Built .expression e
  | combine {op : BinaryOperator} {l r : Expr} (other : op ≠ .between) (left : Built .term l)
      (right : Built .expression r) : Built .expression (.combine op l r)

/-- Where the parts of a tree may stand. A list stands in parentheses only, a binary operation is no
left operand and no operand of a unary operator, and an operator after an operand does not follow
one that stands before it. -/
def shapedNode : Expr → Prop
  | .literal v t => t = v.dataType
  | .parameter n => IsParameter n
  | .column p => IsPath p
  | .function n args => isName n = true ∧ ∀ a ∈ args, a.isItem = true
  | .list items _ => items.length ≠ 1 ∧ ∀ i ∈ items, i.isItem = true
  | .parenthesis _ => True
  | .unary op e _ => e.isTerm = true ∧ (op.position = .after → e.isBase = true)
  | .binary op l r _ => op ≠ .between ∧ l.isTerm = true ∧ r.isItem = true
  | .case subject arms otherwise => arms ≠ [] ∧ (∀ s ∈ subject, s.isItem = true) ∧
      (∀ arm ∈ arms, arm.1.isItem = true ∧ arm.2.isItem = true) ∧ ∀ o ∈ otherwise, o.isItem = true
  | .table _ | .raw .. => False

def Form.admits : Form → Expr → Bool
  | .base, e => e.isBase
  | .term, e => e.isTerm
  | .expression, e => e.isItem

section
variable {form : Form} {e : Expr}

theorem Built.shaped (built : Built form e) : form.admits e = true ∧ e.All shapedNode := by
  -- the form of a part says where it may stand, so the induction carries both
  induction built with
  | literal v => exact ⟨rfl, (Expr.all_leaf rfl).2 rfl⟩
  | parameter named => exact ⟨rfl, (Expr.all_leaf rfl).2 named⟩
  | column isPath => exact ⟨rfl, (Expr.all_leaf rfl).2 isPath⟩
  | @function n args named _ ih =>
    refine ⟨rfl, (Expr.all_function n args).2 ⟨⟨named, ?_⟩, ?_⟩⟩
    · exact fun a mem => (ih a mem).1
    · exact fun a mem => (ih a mem).2
  | @group e _ ih => exact ⟨rfl, (Expr.all_parenthesis e).2 ⟨trivial, ih.2⟩⟩
  | @tuple items several _ ih =>
    have list : (Expr.commaList items).All shapedNode := by
      refine (Expr.all_list items ", ").2 ⟨⟨several, ?_⟩, ?_⟩
      · exact fun i mem => (ih i mem).1
      · exact fun i mem => (ih i mem).2
    exact ⟨rfl, (Expr.all_parenthesis _).2 ⟨trivial, list⟩⟩
  | @case subject otherwise arms nonempty _ _ _ _ subjects conditions results branches =>
    refine ⟨rfl, (Expr.all_case subject arms otherwise).2
      ⟨⟨nonempty, ?_, ?_, ?_⟩, ?_, ?_, ?_⟩⟩
    · exact fun s mem => (subjects s mem).1
    · exact fun arm mem => ⟨(conditions arm mem).1, (results arm mem).1⟩
    · exact fun o mem => (branches o mem).1
    · exact fun s mem => (subjects s mem).2
    · exact fun arm mem => ⟨(conditions arm mem).2, (results arm mem).2⟩
    · exact fun o mem => (branches o mem).2
  | @after op e place _ ih =>
    refine ⟨?_, (Expr.all_unary op e _).2 ⟨⟨Expr.isTerm_of_isBase ih.1, fun _ => ih.1⟩, ih.2⟩⟩
    simp [Form.admits, Expr.apply, Expr.isBase, place]
  | ofBase _ ih => exact ⟨Expr.isTerm_of_isBase ih.1, ih.2⟩
  | @before op e place _ ih =>
    refine ⟨rfl, (Expr.all_unary op e _).2 ⟨⟨ih.1, fun after => ?_⟩, ih.2⟩⟩
    rw [place] at after
    cases after
  | ofTerm _ ih => exact ⟨Expr.isItem_of_isTerm ih.1, ih.2⟩
  | @combine op l r other _ _ left right =>
    exact ⟨rfl, (Expr.all_binary op l r _).2 ⟨⟨other, left.1, right.1⟩, left.2, right.2⟩⟩

end

def Builds (form : Form) (rule : Rule Expr) : Prop :=
  ∀ ⦃cs e rest⦄, rule.Gives cs e rest → Built form e

section
variable {now : LocalTime} {expression term rule : Rule Expr}

theorem ReadsLiterals.builds (reads : ReadsLiterals rule) : Builds .base rule := by
  intro cs e rest gives
  obtain ⟨v, rfl, -⟩ := reads gives
  exact .literal v

theorem timestamp_builds : Builds .base (timestamp now) := by
  intro cs e rest gives
  obtain ⟨-, t, rfl, -⟩ := gives_timestamp gives
  exact .literal (.timestamp t)

theorem parameter_builds : Builds .base parameter := by
  intro cs e rest gives
  obtain ⟨n, rfl, named⟩ := gives_parameter gives
  exact .parameter named

theorem path_builds : Builds .base path := by
  intro cs e rest gives
  obtain ⟨n, names, mid, rfl, isPath, -⟩ := gives_path gives
  exact .column isPath

/-- The parts of an expression are what the rule for expressions gives. -/
theorem Builds.part {e : Expr} (builds : Builds .expression expression)
    (given : ∃ start last, expression.Gives start e last) : Built .expression e := by
  obtain ⟨start, last, gives⟩ := given
  exact builds gives

theorem function_builds (builds : Builds .expression expression) :
    Builds .base (function expression) := by
  intro cs e rest gives
  obtain ⟨n, args, mid, rfl, first, items⟩ := gives_function gives
  exact .function (gives_name first).1 fun a mem => builds.part (items a mem)

theorem group_builds (builds : Builds .expression expression) :
    Builds .base (group expression) := by
  intro cs e rest gives
  obtain ⟨items, read, ⟨i, rfl, rfl⟩ | ⟨several, rfl⟩⟩ := gives_group gives
  · exact .group (builds.part (read i List.mem_cons_self))
  · exact .tuple several fun i mem => builds.part (read i mem)

theorem caseOf_builds (builds : Builds .expression expression) :
    Builds .base (caseOf expression) := by
  intro cs e rest gives
  obtain ⟨subject, arms, otherwise, rfl, nonempty, subjects, each, branches⟩ := gives_caseOf gives
  refine .case nonempty ?_ ?_ ?_ ?_
  · intro s mem
    obtain ⟨start, last, given, -⟩ := subjects s mem
    exact builds given
  · exact fun arm mem => builds.part (each arm mem).1
  · exact fun arm mem => builds.part (each arm mem).2
  · exact fun o mem => builds.part (branches o mem)

theorem firstOf_builds {form : Form} {rules : List (Rule Expr)}
    (each : ∀ rule ∈ rules, Builds form rule) : Builds form (firstOf rules) := by
  intro cs e rest gives
  obtain ⟨rule, listed, given⟩ := gives_firstOf gives
  exact each rule listed given

theorem primary_builds (builds : Builds .expression expression) :
    Builds .base ((standard now).primary expression) := by
  refine firstOf_builds ?_
  simp only [List.forall_mem_cons, List.not_mem_nil, false_implies, implies_true, and_true]
  exact ⟨caseOf_builds builds, timestamp_builds, bytes_reads.builds, text_reads.builds,
    constant_reads.builds, function_builds builds, parameter_builds, path_builds,
    group_builds builds⟩

theorem built_afterwards {ops : List UnaryOperator} {e : Expr}
    (places : ∀ op ∈ ops, op.position = .after) (built : Built .base e) :
    Built .base (ops.foldl (fun e op => .apply op e) e) := by
  induction ops generalizing e with
  | nil => exact built
  | cons op ops ih =>
    obtain ⟨place, later⟩ := List.forall_mem_cons.1 places
    exact ih later (.after place built)

theorem withOperatorsAfter_builds (builds : Builds .base rule) :
    Builds .term ((standard now).withOperatorsAfter rule) := by
  intro cs e rest gives
  obtain ⟨base, mid, ops, read, places, rfl, -⟩ := gives_withOperatorsAfter gives
  exact .ofBase (built_afterwards places (builds read))

theorem applied_builds (builds : Builds .term term) :
    Builds .term ((standard now).applied term) := by
  intro cs e rest gives
  obtain ⟨op, operand, start, rfl, place, read, -⟩ := gives_applied gives
  exact .before place (builds read)

theorem termOf_builds (builds : Builds .expression expression) (terms : Builds .term term) :
    Builds .term ((standard now).termOf expression term) := by
  refine firstOf_builds ?_
  simp only [List.forall_mem_cons, List.not_mem_nil, false_implies, implies_true, and_true]
  exact ⟨withOperatorsAfter_builds number_reads.builds, applied_builds terms,
    withOperatorsAfter_builds (primary_builds builds)⟩

theorem expressionOf_builds (terms : Builds .term term) (builds : Builds .expression expression) :
    Builds .expression ((standard now).expressionOf term expression) := by
  intro cs e rest gives
  obtain alone | ⟨op, left, right, mid, between, rfl, first, operator, second⟩ :=
    gives_expressionOf gives
  · exact .ofTerm (terms alone)
  · obtain ⟨_, ⟨rfl⟩, other, -⟩ := gives_operatorBetween operator
    exact .combine other (terms first) (builds second)

theorem level_builds (depth : Nat) :
    Builds .expression ((standard now).level depth).expression ∧
      Builds .term ((standard now).level depth).term := by
  induction depth with
  | zero =>
    constructor
    · intro cs e rest gives
      cases gives
    · intro cs e rest gives
      cases gives
  | succ depth ih =>
    have terms : Builds .term ((standard now).level (depth + 1)).term := termOf_builds ih.1 ih.2
    exact ⟨expressionOf_builds terms ih.1, terms⟩

end

/-- Whatever text is read, every part of its tree stands where it may. -/
theorem shaped_of_parse {now : LocalTime} {text : String} {e : Expr}
    (read : (standard now).parse text = .ok e) : e.isItem = true ∧ e.All shapedNode := by
  obtain ⟨depth, start, rest, gives⟩ := gives_of_parse read
  exact ((level_builds depth).1 gives).shaped

/-- A sign takes the test for null behind its operand, and a product all that follows it. -/
theorem shaped_of_parse_product :
    ∃ e, (standard ⟨⟨2024, 2, 29⟩, 3600, 0⟩).parse
        "case when not a then (1, :p) end * -b is null - c" = .ok e ∧
      e.display = "CASE WHEN NOT a THEN (1, :p) END * (-(b IS NULL) - c)" ∧
      e.isItem = true ∧ e.All shapedNode := by
  have shown : (((standard ⟨⟨2024, 2, 29⟩, 3600, 0⟩).parse
      "case when not a then (1, :p) end * -b is null - c").toOption.any fun e =>
        e.display == "CASE WHEN NOT a THEN (1, :p) END * (-(b IS NULL) - c)") = true := by
    decide +kernel
  cases read : (standard ⟨⟨2024, 2, 29⟩, 3600, 0⟩).parse
      "case when not a then (1, :p) end * -b is null - c" with
  | error fault =>
    rw [read] at shown
    cases shown
  | ok e =>
    rw [read] at shown
    exact ⟨e, rfl, beq_iff_eq.1 shown, shaped_of_parse read⟩

end SqlFragment.Grammar
