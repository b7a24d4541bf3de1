import SqlFragment.Expr.Writing

/-
Walking over expressions: induction on the parts of an expression, properties that hold of every
part, and rewriting from the leaves up.
-/
namespace SqlFragment.Expr

def IsRange (op : BinaryOperator) (r : Expr) : Prop :=
  ∃ low high t, op = .between ∧ r = .binary .and low high t

theorem not_isRange_of_ne {op : BinaryOperator} {r : Expr} (other : op ≠ .between) :
    ¬IsRange op r := by
  rintro ⟨_, _, _, isBetween, _⟩
  exact other isBetween

/-- Induction in the cases in which expressions are written: the bounds of a range count as parts of
the range test. -/
theorem inductionOnParts {P : Expr → Prop}
    (literal : ∀ v t, P (.literal v t)) (parameter : ∀ n, P (.parameter n))
    (column : ∀ p, P (.column p)) (table : ∀ p, P (.table p)) (raw : ∀ s t, P (.raw s t))
    (function : ∀ n args, (∀ a ∈ args, P a) → P (.function n args))
    (list : ∀ items s, (∀ i ∈ items, P i) → P (.list items s))
    (parenthesis : ∀ e, P e → P (.parenthesis e))
    (unary : ∀ op e t, P e → P (.unary op e t))
    (range : ∀ l low high t u, P l → P low → P high →
      P (.binary .between l (.binary .and low high t) u))
    (binary : ∀ op l r t, ¬IsRange op r → P l → P r → P (.binary op l r t))
    (case : ∀ s arms o, (∀ e ∈ s, P e) → (∀ arm ∈ arms, P arm.1 ∧ P arm.2) → (∀ e ∈ o, P e) →
      P (.case s arms o)) (e : Expr) : P e := by
  refine display.induct P (fun arms => ∀ arm ∈ arms, P arm.1 ∧ P arm.2) (fun o => ∀ e ∈ o, P e)
    (fun es => ∀ e ∈ es, P e) literal parameter column table raw function list parenthesis unary
    range ?_ case ?_ ?_ ?_ ?_ ?_ ?_ e
  · intro op l r t other hl hr
    refine binary op l r t ?_ hl hr
    rintro ⟨low, high, u, isBetween, isAnd⟩
    exact other low high u isBetween isAnd
  · simp
  · intro e es first rest
    simpa using And.intro first rest
  · simp
  · intro e here
    simpa using here
  · simp
  · intro w t arms hw ht rest
    simpa using And.intro ⟨hw, ht⟩ (by simpa using rest)

section
variable (es : List Expr) (arms : List (Expr × Expr)) (o : Option Expr)

theorem displayAll_eq_map : displayAll es = es.map display := by
  induction es with
  | nil => rfl
  | cons e es ih => simp [displayAll, ih]

theorem display_commaList : (commaList es).display = ", ".intercalate (es.map display) := by
  rw [commaList, display, displayAll_eq_map]

theorem displayArms_eq_map :
    displayArms arms = arms.map fun arm => "WHEN " ++ arm.1.display ++ " THEN " ++ arm.2.display := by
  induction arms with
  | nil => rfl
  | cons arm arms ih => simp [displayArms, ih]

theorem displayOption_eq_map : displayOption o = o.toList.map display := by
  cases o <;> rfl

end

section
variable {f : Expr → Expr}

/-- The text of a node depends on its parts only through their texts. -/
theorem display_function_map {args : List Expr} (same : ∀ a ∈ args, (f a).display = a.display)
    (n : String) : display (.function n (args.map f)) = display (.function n args) := by
  have texts : args.map (display ∘ f) = args.map display := List.map_congr_left same
  simp only [display, displayAll_eq_map, List.map_map, texts]

theorem display_list_map {items : List Expr} (same : ∀ i ∈ items, (f i).display = i.display)
    (s : String) : display (.list (items.map f) s) = display (.list items s) := by
  have texts : items.map (display ∘ f) = items.map display := List.map_congr_left same
  simp only [display, displayAll_eq_map, List.map_map, texts]

theorem display_case_map {s o : Option Expr} {arms : List (Expr × Expr)}
    (subject : ∀ e ∈ s, (f e).display = e.display)
    (each : ∀ arm ∈ arms, (f arm.1).display = arm.1.display ∧ (f arm.2).display = arm.2.display)
    (branch : ∀ e ∈ o, (f e).display = e.display) :
    display (.case (s.map f) (arms.map fun arm => (f arm.1, f arm.2)) (o.map f)) =
      display (.case s arms o) := by
  have first : s.toList.map (display ∘ f) = s.toList.map display :=
    List.map_congr_left fun e he => subject e (Option.mem_toList.mp he)
  have last : o.toList.map (display ∘ f) = o.toList.map display :=
    List.map_congr_left fun e he => branch e (Option.mem_toList.mp he)
  have middle : arms.map (fun arm =>
        "WHEN " ++ (f arm.1).display ++ " THEN " ++ (f arm.2).display) =
      arms.map fun arm => "WHEN " ++ arm.1.display ++ " THEN " ++ arm.2.display :=
    List.map_congr_left fun arm harm => by rw [(each arm harm).1, (each arm harm).2]
  simp only [display, displayOption_eq_map, displayArms_eq_map, List.map_map, Option.toList_map,
    first, last]
  simp only [Function.comp_def, middle]

end

section
variable (es : List Expr) (arms : List (Expr × Expr)) (o : Option Expr)

theorem visitAll_eq_flatMap : visitAll es = es.flatMap visit := by
  induction es with
  | nil => rfl
  | cons e es ih => simp [visitAll, ih]

theorem visitArms_eq_flatMap :
    visitArms arms = arms.flatMap fun arm => arm.1.visit ++ arm.2.visit := by
  induction arms with
  | nil => rfl
  | cons arm arms ih => simp [visitArms, ih]

theorem visitOption_eq_flatMap : visitOption o = o.toList.flatMap visit := by
  cases o <;> simp [visitOption]

end

def All (P : Expr → Prop) (e : Expr) : Prop := ∀ x ∈ e.visit, P x

instance (P : Expr → Prop) [DecidablePred P] (e : Expr) : Decidable (e.All P) :=
  inferInstanceAs (Decidable (∀ x ∈ e.visit, P x))

section
variable {P : Expr → Prop}

theorem all_function (n : String) (args : List Expr) :
    All P (.function n args) ↔ P (.function n args) ∧ ∀ a ∈ args, All P a := by
  simp only [All, visit, visitAll_eq_flatMap, List.forall_mem_cons, List.forall_mem_flatMap]

theorem all_list (items : List Expr) (s : String) :
    All P (.list items s) ↔ P (.list items s) ∧ ∀ i ∈ items, All P i := by
  simp only [All, visit, visitAll_eq_flatMap, List.forall_mem_cons, List.forall_mem_flatMap]

theorem all_parenthesis (e : Expr) :
    All P (.parenthesis e) ↔ P (.parenthesis e) ∧ All P e := by
  simp only [All, visit, List.forall_mem_cons]

theorem all_unary (op : UnaryOperator) (e : Expr) (t : DataType) :
    All P (.unary op e t) ↔ P (.unary op e t) ∧ All P e := by
  simp only [All, visit, List.forall_mem_cons]

theorem all_binary (op : BinaryOperator) (l r : Expr) (t : DataType) :
    All P (.binary op l r t) ↔ P (.binary op l r t) ∧ All P l ∧ All P r := by
  simp only [All, visit, List.forall_mem_cons, List.forall_mem_append]

theorem all_case (s : Option Expr) (arms : List (Expr × Expr)) (o : Option Expr) :
    All P (.case s arms o) ↔ P (.case s arms o) ∧ (∀ e ∈ s, All P e) ∧
      (∀ arm ∈ arms, All P arm.1 ∧ All P arm.2) ∧ ∀ e ∈ o, All P e := by
  simp only [All, visit, visitArms_eq_flatMap, visitOption_eq_flatMap, List.forall_mem_cons,
    List.forall_mem_append, List.forall_mem_flatMap, Option.mem_toList, Option.mem_def, and_assoc]

theorem all_leaf {e : Expr} (leaf : e.visit = [e]) : All P e ↔ P e := by
  simp only [All, leaf, List.mem_singleton, forall_eq]

section
variable {f : Expr → Expr}

theorem all_function_map {n : String} {args : List Expr} (node : P (.function n (args.map f)))
    (parts : ∀ a ∈ args, All P (f a)) : All P (.function n (args.map f)) := by
  refine (all_function n _).mpr ⟨node, ?_⟩
  intro a ha
  obtain ⟨b, hb, rfl⟩ := List.mem_map.mp ha
  exact parts b hb

theorem all_list_map {items : List Expr} {s : String} (node : P (.list (items.map f) s))
    (parts : ∀ i ∈ items, All P (f i)) : All P (.list (items.map f) s) := by
  refine (all_list _ s).mpr ⟨node, ?_⟩
  intro a ha
  obtain ⟨b, hb, rfl⟩ := List.mem_map.mp ha
  exact parts b hb

theorem all_case_map {s o : Option Expr} {arms : List (Expr × Expr)}
    (node : P (.case (s.map f) (arms.map fun arm => (f arm.1, f arm.2)) (o.map f)))
    (subject : ∀ e ∈ s, All P (f e)) (each : ∀ arm ∈ arms, All P (f arm.1) ∧ All P (f arm.2))
    (branch : ∀ e ∈ o, All P (f e)) :
    All P (.case (s.map f) (arms.map fun arm => (f arm.1, f arm.2)) (o.map f)) := by
  refine (all_case _ _ _).mpr ⟨node, ?_, ?_, ?_⟩
  · intro e he
    obtain ⟨x, hx, rfl⟩ := Option.map_eq_some_iff.mp he
    exact subject x hx
  · intro arm harm
    obtain ⟨a, ha, rfl⟩ := List.mem_map.mp harm
    exact each a ha
  · intro e he
    obtain ⟨x, hx, rfl⟩ := Option.map_eq_some_iff.mp he
    exact branch x hx

end

theorem All.self {e : Expr} (all : e.All P) : P e := by
  refine all e ?_
  cases e <;> simp [visit]

theorem All.argument {n : String} {args : List Expr} (all : (Expr.function n args).All P) {a : Expr}
    (mem : a ∈ args) : a.All P := ((all_function n args).mp all).2 a mem

section
variable {s o : Option Expr} {arms : List (Expr × Expr)} (all : (Expr.case s arms o).All P)
include all

theorem All.subject {e : Expr} (mem : e ∈ s) : e.All P := ((all_case s arms o).mp all).2.1 e mem

theorem All.arm {arm : Expr × Expr} (mem : arm ∈ arms) : arm.1.All P ∧ arm.2.All P :=
  ((all_case s arms o).mp all).2.2.1 arm mem

theorem All.branch {e : Expr} (mem : e ∈ o) : e.All P := ((all_case s arms o).mp all).2.2.2 e mem

end

end

mutual

/-- Applies `f` to every part of an expression, to each after its own parts. -/
def rewrite (f : Expr → Expr) : Expr → Expr
  | .literal v t => f (.literal v t)
  | .parameter n => f (.parameter n)
  | .column p => f (.column p)
  | .table p => f (.table p)
  | .raw s t => f (.raw s t)
  | .function n args => f (.function n (rewriteAll f args))
  | .list items s => f (.list (rewriteAll f items) s)
  | .parenthesis e => f (.parenthesis (rewrite f e))
  | .unary op e t => f (.unary op (rewrite f e) t)
  | .binary op l r t => f (.binary op (rewrite f l) (rewrite f r) t)
  | .case s arms o => f (.case (rewriteOption f s) (rewriteArms f arms) (rewriteOption f o))

def rewriteAll (f : Expr → Expr) : List Expr → List Expr
  | [] => []
  | e :: es => rewrite f e :: rewriteAll f es

def rewriteArms (f : Expr → Expr) : List (Expr × Expr) → List (Expr × Expr)
  | [] => []
  | (w, t) :: arms => (rewrite f w, rewrite f t) :: rewriteArms f arms

def rewriteOption (f : Expr → Expr) : Option Expr → Option Expr
  | none => none
  | some e => some (rewrite f e)

end

section
variable (f : Expr → Expr)

theorem rewriteAll_eq_map (es : List Expr) : rewriteAll f es = es.map (rewrite f) := by
  induction es with
  | nil => rfl
  | cons e es ih => simp [rewriteAll, ih]

theorem rewriteArms_eq_map (arms : List (Expr × Expr)) :
    rewriteArms f arms = arms.map fun arm => (rewrite f arm.1, rewrite f arm.2) := by
  induction arms with
  | nil => rfl
  | cons arm arms ih => simp [rewriteArms, ih]

theorem rewriteOption_eq_map (o : Option Expr) : rewriteOption f o = o.map (rewrite f) := by
  cases o <;> rfl

theorem rewrite_function (n : String) (args : List Expr) :
    rewrite f (.function n args) = f (.function n (args.map (rewrite f))) := by
  rw [rewrite, rewriteAll_eq_map]

theorem rewrite_list (items : List Expr) (s : String) :
    rewrite f (.list items s) = f (.list (items.map (rewrite f)) s) := by
  rw [rewrite, rewriteAll_eq_map]

theorem rewrite_case (s : Option Expr) (arms : List (Expr × Expr)) (o : Option Expr) :
    rewrite f (.case s arms o) = f (.case (s.map (rewrite f))
      (arms.map fun arm => (rewrite f arm.1, rewrite f arm.2)) (o.map (rewrite f))) := by
  rw [rewrite, rewriteArms_eq_map, rewriteOption_eq_map, rewriteOption_eq_map]

theorem rewrite_eq_self {e : Expr} (fixed : e.All fun x => f x = x) : e.rewrite f = e := by
  induction e using inductionOnParts with
  | literal | parameter | column | table | raw => exact fixed.self
  | function n args ih =>
    obtain ⟨node, parts⟩ := (all_function n args).mp fixed
    have same : args.map (rewrite f) = args :=
      (List.map_congr_left fun a ha => ih a ha (parts a ha)).trans (List.map_id args)
    rw [rewrite_function, same, node]
  | list items s ih =>
    obtain ⟨node, parts⟩ := (all_list items s).mp fixed
    have same : items.map (rewrite f) = items :=
      (List.map_congr_left fun a ha => ih a ha (parts a ha)).trans (List.map_id items)
    rw [rewrite_list, same, node]
  | parenthesis e ih =>
    obtain ⟨node, part⟩ := (all_parenthesis e).mp fixed
    rw [rewrite, ih part, node]
  | unary op e t ih =>
    obtain ⟨node, part⟩ := (all_unary op e t).mp fixed
    rw [rewrite, ih part, node]
  | range l low high t u hl hlow hhigh =>
    obtain ⟨node, left, right⟩ := (all_binary _ _ _ _).mp fixed
    obtain ⟨inner, lower, upper⟩ := (all_binary _ _ _ _).mp right
    rw [rewrite, rewrite, hl left, hlow lower, hhigh upper, inner, node]
  | binary op l r t _ hl hr =>
    obtain ⟨node, left, right⟩ := (all_binary _ _ _ _).mp fixed
    rw [rewrite, hl left, hr right, node]
  | case s arms o hs harms ho =>
    obtain ⟨node, subject, each, branch⟩ := (all_case s arms o).mp fixed
    have first : s.map (rewrite f) = s := by
      cases s with
      | none => rfl
      | some e => exact congrArg some (hs e rfl (subject e rfl))
    have last : o.map (rewrite f) = o := by
      cases o with
      | none => rfl
      | some e => exact congrArg some (ho e rfl (branch e rfl))
    have middle : arms.map (fun arm => (rewrite f arm.1, rewrite f arm.2)) = arms := by
      refine (List.map_congr_left ?_).trans (List.map_id arms)
      intro arm harm
      obtain ⟨condition, result⟩ := each arm harm
      rw [(harms arm harm).1 condition, (harms arm harm).2 result, id]
    rw [rewrite_case, first, middle, last, node]

end

end SqlFragment.Expr
