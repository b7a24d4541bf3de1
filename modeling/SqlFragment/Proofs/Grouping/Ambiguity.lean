import SqlFragment.Proofs.Grouping.Regrouped

/-
Expressions that are not uniform are ambiguous: their texts are read as other groupings. The chain
of an operator is compared by the size of what stands at its left end.

A text is compared only with the texts of uniform expressions: one that is not uniform always has a
uniform rival, and two that are not may still share a text. A column whose only name is a number in
decimal has the text of the number and counts as grouped like it, so those two are no rivals.
-/
namespace SqlFragment.Expr

def size (e : Expr) : Nat := e.visit.length

theorem size_binary (op : BinaryOperator) (l r : Expr) (t : DataType) :
    size (.binary op l r t) = l.size + r.size + 1 := by
  simp [size, visit]

theorem size_graft (joins : BinaryOperator → Bool) (op : BinaryOperator) (left right : Expr) :
    (graft joins op left right).size = left.size + right.size + 1 := by
  fun_induction graft joins op left right with
  | case1 inner a b t joined ih =>
    rw [size_binary, ih, size_binary]
    omega
  | case2 | case3 => exact size_binary _ _ _ _

section
variable {f g : Expr → Expr}

theorem size_function_map {args : List Expr} (same : ∀ a ∈ args, (f a).size = (g a).size)
    (n : String) : size (.function n (args.map f)) = size (.function n (args.map g)) := by
  have lengths : args.map (List.length ∘ visit ∘ f) = args.map (List.length ∘ visit ∘ g) :=
    List.map_congr_left same
  simp only [size, visit, visitAll_eq_flatMap, List.flatMap_map, List.length_cons,
    List.length_flatMap]
  exact congrArg (List.sum · + 1) lengths

theorem size_case_map {s o : Option Expr} {arms : List (Expr × Expr)}
    (subject : ∀ e ∈ s, (f e).size = (g e).size)
    (each : ∀ arm ∈ arms, (f arm.1).size = (g arm.1).size ∧ (f arm.2).size = (g arm.2).size)
    (branch : ∀ e ∈ o, (f e).size = (g e).size) :
    size (.case (s.map f) (arms.map fun arm => (f arm.1, f arm.2)) (o.map f)) =
      size (.case (s.map g) (arms.map fun arm => (g arm.1, g arm.2)) (o.map g)) := by
  have option : ∀ {o : Option Expr}, (∀ e ∈ o, (f e).size = (g e).size) →
      (visitOption (o.map f)).length = (visitOption (o.map g)).length := by
    intro o same
    cases o with
    | none => rfl
    | some e => exact same e rfl
  have middle : (visitArms (arms.map fun arm => (f arm.1, f arm.2))).length =
      (visitArms (arms.map fun arm => (g arm.1, g arm.2))).length := by
    have lengths : arms.map (fun arm => ((f arm.1).visit ++ (f arm.2).visit).length) =
        arms.map fun arm => ((g arm.1).visit ++ (g arm.2).visit).length := by
      refine List.map_congr_left ?_
      intro arm harm
      obtain ⟨condition, result⟩ := each arm harm
      simp only [size] at condition result
      rw [List.length_append, List.length_append, condition, result]
    simp only [visitArms_eq_flatMap, List.flatMap_map, List.length_flatMap, lengths]
  simp only [size, visit, List.length_cons, List.length_append, option subject, option branch,
    middle]

end

def leftEnd (op : BinaryOperator) : Expr → Expr
  | .binary inner a b t => if inner = op then leftEnd op a else .binary inner a b t
  | e => e

theorem size_leftEnd_le (op : BinaryOperator) (e : Expr) : (leftEnd op e).size ≤ e.size := by
  fun_induction leftEnd op e with
  | case1 a b t ih =>
    rw [size_binary]
    omega
  | case2 | case3 => exact Nat.le_refl _

theorem leftEnd_reassociate (op : BinaryOperator) (left right : Expr) :
    leftEnd op (reassociate op left right) = leftEnd op left := by
  unfold reassociate
  fun_induction graft (fun inner => inner == op && op.isAssociative) op left right with
  | case1 inner a b t joins ih =>
    have same : inner = op := eq_of_beq (Bool.and_eq_true_iff.mp joins).1
    rw [leftEnd, if_pos same, ih]
  | case2 | case3 => rw [combine, leftEnd, if_pos rfl]

theorem leftEnd_of_ne {op inner : BinaryOperator} (other : inner ≠ op) (left right : Expr) :
    leftEnd op (reassociate inner left right) = reassociate inner left right := by
  unfold reassociate
  fun_cases graft (fun next => next == inner && inner.isAssociative) inner left right with
  | case1 next a b t joins =>
    have same : next = inner := eq_of_beq (Bool.and_eq_true_iff.mp joins).1
    rw [leftEnd, if_neg (by rwa [same])]
  | case2 | case3 => rw [combine, leftEnd, if_neg other]

theorem graft_cases (joins : BinaryOperator → Bool) (op : BinaryOperator) (left right : Expr) :
    (∃ inner a b t, right = .binary inner a b t ∧
      graft joins op left right = .binary inner (graft joins op left a) b t) ∨
      graft joins op left right = combine op left right := by
  fun_cases graft joins op left right with
  | case1 inner a b t => exact .inl ⟨inner, a, b, t, rfl, rfl⟩
  | case2 | case3 => exact .inr rfl

/-- A chain of two parts determines the parts by their sizes. -/
theorem graft_inj {joins : BinaryOperator → Bool} {op : BinaryOperator} {a a' b b' : Expr}
    (same : graft joins op a b = graft joins op a' b') (sizes : a.size = a'.size) :
    a = a' ∧ b = b' := by
  have apart : ∀ {p q r : Expr}, p.size = q.size → p ≠ graft joins op q r := by
    intro p q r equal shape
    rw [shape, size_graft] at equal
    omega
  fun_induction graft joins op a b generalizing b' with
  | case1 inner x y t joined ih =>
    obtain ⟨_, x', _, _, rfl, shape⟩ | shape := graft_cases joins op a' b'
    · rw [shape] at same
      obtain ⟨rfl, front, rfl, rfl⟩ := Expr.binary.inj same
      obtain ⟨rfl, rfl⟩ := ih front
      exact ⟨rfl, rfl⟩
    · rw [shape, combine] at same
      exact absurd (Expr.binary.inj same).2.1.symm (apart sizes.symm)
  | case2 | case3 =>
    obtain ⟨_, x', _, _, rfl, shape⟩ | shape := graft_cases joins op a' b'
    · rw [shape, combine] at same
      exact absurd (Expr.binary.inj same).2.1 (apart sizes)
    · rw [shape, combine, combine] at same
      obtain ⟨-, rfl, rfl, -⟩ := Expr.binary.inj same
      exact ⟨rfl, rfl⟩

section
variable {op : BinaryOperator} {left right : Expr}

theorem size_chained_binary (other : op ≠ .between) (l r : Expr) (t : DataType) :
    (Expr.binary op l r t).chained.size = l.chained.size + r.chained.size + 1 := by
  rw [chained_binary other, reassociate, size_graft]

theorem size_chained_attach (notRange : op ≠ .between)
    (apart : ∀ o ∈ right.strand op.precedence, o ≠ .between) :
    (attach op left right).chained.size = left.chained.size + right.chained.size + 1 := by
  induction right using inductionOnStrand op with
  | joined inner a b t same ih =>
    have other := apart inner (by simp [strand, same])
    have front := ih fun o mem => apart o (by simp [strand, same, mem])
    rw [attach_binary same, size_chained_binary other, front, size_chained_binary other]
    omega
  | apart right none => rw [attach_of_strand none, combine, size_chained_binary notRange]

/-- A chain with another operator in it has more at its left end than what was attached. -/
theorem size_lt_leftEnd (apart : ∀ o ∈ right.strand op.precedence, o ≠ .between)
    (notRange : op ≠ .between) (grouped : right.All fun x => x.leftNode)
    {o : BinaryOperator} (mem : o ∈ right.strand op.precedence) (mixed : o ≠ op) :
    left.chained.size < (leftEnd op (attach op left right).chained).size := by
  induction right using inductionOnStrand op with
  | joined inner a b t same ih =>
    have other := apart inner (by simp [strand, same])
    obtain ⟨node, front, -⟩ := (all_binary _ _ _ _).mp grouped
    have last : b.strand op.precedence = [] := by simpa [leftNode, same] using node
    have inside : ∀ o ∈ a.strand op.precedence, o ≠ .between := fun o listed =>
      apart o (by simp [strand, same, listed])
    rw [attach_binary same, chained_binary other]
    by_cases equal : inner = op
    · subst equal
      have earlier : o ∈ a.strand inner.precedence := by
        rw [strand_binary, last] at mem
        simpa [mixed] using mem
      rw [leftEnd_reassociate]
      exact ih inside front earlier
    · rw [leftEnd_of_ne equal, reassociate, size_graft, size_chained_attach notRange inside]
      omega
  | apart right none =>
    rw [none] at mem
    cases mem

end

theorem size_chained_regroup {e : Expr} (tight : e.Tight) (legible : e.Legible) :
    e.regroup.chained.size = e.chained.size := by
  induction e, tight, legible using inductionOnLegible with
  | literal | parameter | column => rfl
  | function n args _ _ ih =>
    rw [regroup_function, chained_function, chained_function, List.map_map]
    exact size_function_map ih n
  | parenthesis e _ _ ih => exact ih
  | unary op e _ _ ih =>
    simp only [size] at ih
    simp only [regroup_unary, chained_unary, size, visit, List.length_cons, ih]
  | range e low high tight _ he hlow hhigh =>
    rw [regroup_range tight.upper_level, between, combine, combine, chained_range, chained_range]
    have parts : ∀ x ∈ [e, low, high], x.regroup.chained.size = x.chained.size := by
      simpa using ⟨he, hlow, hhigh⟩
    exact size_function_map parts "BETWEEN"
  | binary op l r other plain tight _ hl hr =>
    have apart := not_between_of_mem_regroup (tight.bare plain)
    rw [regroup_binary, size_chained_attach other apart, size_chained_binary other, hl, hr]
  | case s arms o _ _ hs harms ho =>
    rw [regroup_case, chained_case, chained_case, Option.map_map, Option.map_map, List.map_map]
    exact size_case_map hs harms ho

/-- The left end of a chain grows when a mixed chain is regrouped, so a chain that keeps its grouping
has one operator. -/
theorem eq_of_mem_strand {op : BinaryOperator} {l r left right : Expr} (other : op ≠ .between)
    (apart : ∀ o ∈ right.strand op.precedence, o ≠ .between)
    (grouped : right.All fun x => x.leftNode) (sizes : left.chained.size = l.size)
    (same : (attach op left right).chained = reassociate op l r) :
    ∀ o ∈ right.strand op.precedence, o = op := by
  intro o mem
  refine Decidable.byContradiction fun mixed => ?_
  have grows := @size_lt_leftEnd op left right apart other grouped o mem mixed
  have bound := size_leftEnd_le op l
  rw [same, leftEnd_reassociate] at grows
  omega

theorem uniform_range {e low high : Expr} {t u : DataType}
    (strong : BinaryOperator.between.precedence < high.level)
    (subject : e.All fun x => x.uniformNode) (lower : low.All fun x => x.uniformNode)
    (upper : high.All fun x => x.uniformNode) :
    (Expr.binary .between e (.binary .and low high t) u).All fun x => x.uniformNode := by
  have weaker : BinaryOperator.and.precedence < BinaryOperator.between.precedence := by decide
  have none : high.strand BinaryOperator.and.precedence = [] := strand_of_ne (by omega)
  have conjunction : (Expr.binary .and low high t).strand BinaryOperator.between.precedence = [] :=
    strand_of_ne (Nat.ne_of_lt weaker)
  refine (all_binary _ _ _ _).mpr ⟨?_, subject, (all_binary _ _ _ _).mpr ⟨?_, lower, upper⟩⟩
  · simp only [uniformNode, conjunction, List.all_nil]
  · simp only [uniformNode, none, List.all_nil]

theorem uniform_of_chained_regroup {e : Expr} (tight : e.Tight) (legible : e.Legible)
    (same : e.regroup.chained = e.chained) : e.All fun x => x.uniformNode := by
  induction e, tight, legible using inductionOnLegible with
  | literal | parameter | column => exact (all_leaf rfl).mpr rfl
  | function n args _ _ ih =>
    rw [regroup_function, chained_function, chained_function, List.map_map] at same
    have equal := List.map_inj_left.mp (Expr.function.inj same).2
    exact (all_function n args).mpr ⟨rfl, fun a mem => ih a mem (equal a mem)⟩
  | parenthesis e _ _ ih => exact (all_parenthesis e).mpr ⟨rfl, ih same⟩
  | unary op e _ _ ih => exact (all_unary op e _).mpr ⟨rfl, ih (Expr.unary.inj same).2.1⟩
  | range e low high tight _ he hlow hhigh =>
    rw [regroup_range tight.upper_level, between, combine, combine, chained_range, chained_range]
      at same
    obtain ⟨-, parts⟩ := Expr.function.inj same
    simp only [List.cons.injEq, and_true] at parts
    exact uniform_range tight.upper_level (he parts.1) (hlow parts.2.1) (hhigh parts.2.2)
  | binary op l r other plain tight legible hl hr =>
    have bare := tight.bare plain
    have sizes := size_chained_regroup (tight.operands plain).1.2 legible.operands.2.1
    rw [regroup_binary, chained_binary other] at same
    have only := eq_of_mem_strand other (not_between_of_mem_regroup bare) (leftGrouped_regroup r)
      sizes same
    rw [chained_attach other l.regroup only (associative_regroup bare)] at same
    obtain ⟨first, second⟩ := graft_inj same sizes
    refine (all_binary _ _ _ _).mpr ⟨?_, hl first, hr second⟩
    rw [strand_regroup] at only
    simpa [uniformNode] using only
  | case s arms o _ _ hs harms ho =>
    rw [regroup_case, chained_case, chained_case, Option.map_map, Option.map_map, List.map_map]
      at same
    obtain ⟨first, middle, last⟩ := Expr.case.inj same
    have pairs := List.map_inj_left.mp middle
    refine (all_case s arms o).mpr ⟨rfl, ?_, ?_, ?_⟩
    · rintro e ⟨rfl⟩
      exact hs e rfl (Option.some.inj first)
    · intro arm mem
      obtain ⟨condition, result⟩ := Prod.mk.inj (pairs arm mem)
      exact ⟨(harms arm mem).1 condition, (harms arm mem).2 result⟩
    · rintro e ⟨rfl⟩
      exact ho e rfl (Option.some.inj last)

theorem untyped_of_legible {e : Expr} (legible : e.Legible) : e.untyped = e :=
  rewrite_eq_self untypedNode fun x listed => (legible x listed).2

theorem written_of_tight {e : Expr} (tight : e.Tight) (legible : e.Legible) : e.written = e := by
  rw [written, untyped_of_legible legible, enclose_of_tight tight]

/-- The text of an expression shows its grouping exactly when the expression is uniform: then all
uniform expressions of this text are grouped in the same way. -/
theorem uniform_iff_grouping_shown {e : Expr} (elementary : e.Elementary) :
    e.Uniform ↔ ∀ e' : Expr, e'.Elementary → e'.Uniform → e'.display = e.display →
      e'.canonical = e.canonical := by
  have tight := tight_written e
  have legible := legible_written elementary
  constructor
  · intro uniform e' other uniform' same
    exact canonical_eq_of_display_eq other elementary uniform' uniform same
  · intro shown
    have tight' := (tight_display_regroup tight legible).1
    have text := (tight_display_regroup tight legible).2.trans (display_written e)
    have legible' := legible_regroup tight legible
    have uniform' : e.written.regroup.Uniform := by
      rw [Uniform, written_of_tight tight' legible']
      exact fun x listed => uniformNode_of_leftNode (leftGrouped_regroup e.written x listed)
    have same := shown e.written.regroup (fun x listed => (legible' x listed).1) uniform' text
    rw [canonical, untyped_of_legible legible', ← chained_written elementary] at same
    exact uniform_of_chained_regroup tight legible same

/-- A conjunction of a range test and of a test after a negation, enclosed where it must be. -/
theorem grouping_shown_of_conjunction :
    let e := combine .and (between (.column ["a"]) (.value (.integer 1)) (.column ["t", "b"]))
      (combine .and (apply .not (apply .isNull (.parameter "p")))
        (combine .gt (combine .minus (.column ["c"]) (combine .plus (.column ["d"]) (.column ["e"])))
          (.function "f" [])))
    e.display = "a BETWEEN 1 AND t.b AND NOT :p IS NULL AND c - (d + e) > f()" ∧
      ∀ e' : Expr, e'.Elementary → e'.Uniform → e'.display = e.display →
        e'.canonical = e.canonical :=
  ⟨by decide, (uniform_iff_grouping_shown (by decide)).mp (by decide)⟩

section
variable (a b c d : Expr)

def productOfQuotient : Expr := combine .multiply a (combine .multiply (combine .divide b c) d)

def quotientOfProduct : Expr := combine .multiply (combine .divide (combine .multiply a b) c) d

end

/-- A product inside a product loses the parentheses around the quotient that it begins with. -/
theorem quotient_in_product_ambiguous :
    let e := productOfQuotient (.column ["a"]) (.column ["b"]) (.column ["c"]) (.column ["d"])
    let e' := quotientOfProduct (.column ["a"]) (.column ["b"]) (.column ["c"]) (.column ["d"])
    e.Elementary ∧ e'.Elementary ∧ e.display = "a * b / c * d" ∧ e'.display = "a * b / c * d" ∧
      e.canonical ≠ e'.canonical ∧ ¬e.Uniform ∧ e'.Uniform := by
  refine ⟨by decide, by decide, by decide, by decide, ?_, by decide, by decide⟩
  intro same
  exact absurd (congrArg display same) (by decide)

end SqlFragment.Expr
