import SqlFragment.Proofs.Statement.Congruence

/-
Rendering checks every reference of an expression and meets the parameters in the order of the text.
What is remembered on the way never decides about a later leaf, so that each of them succeeds or
fails as it would alone.
-/
namespace SqlFragment

def Expr.Leaf.parameter? : Expr.Leaf → Option String
  | .parameter name => some name
  | _ => none

theorem Expr.Leaf.eq_parameter {l : Expr.Leaf} {name : String} (named : l.parameter? = some name) :
    l = .parameter name := by
  cases l <;> cases named
  rfl

namespace Expr

def parameter? : Expr → Option String
  | .parameter name => some name
  | _ => none

/-- The names of the parameters, one for each of their occurrences. -/
def placeholders (e : Expr) : List String := e.visit.filterMap parameter?

/-- A node that is checked when it is rendered. -/
def isReference : Expr → Bool
  | .literal _ _ | .column _ | .table _ => true
  | _ => false

theorem placeholders_eq_leaves (e : Expr) : e.placeholders = e.leaves.filterMap Leaf.parameter? := by
  rw [placeholders, leaves, List.filterMap_filterMap]
  congr 1
  funext x
  cases x <;> rfl

end Expr

namespace Context
variable {c d : Context} {l : Expr.Leaf}

theorem Later.alias?_eq (later : Later c d) :
    d.resolver.scope.alias? = c.resolver.scope.alias? := by
  have same := congrArg (fun r : Resolver => r.scope.alias?) later.resolver.uncached_eq
  exact same

/-- Contexts after look-ups and occurrences answer as the one before. -/
theorem congruent_later (c : Context) :
    Congruent (fun d e => Later c d ∧ Later c e) (fun _ => True) True where
  writer later _ := later.1.writer.trans later.2.writer.symm
  alias? later := later.1.alias?_eq.trans later.2.alias?_eq.symm
  answer kind path later _ :=
    (later.1.resolver.find_eq kind path).trans (later.2.resolver.find_eq kind path).symm
  looked kind path later _ :=
    ⟨later.1.trans (looked_find _ kind path).toLater,
      later.2.trans (looked_find _ kind path).toLater⟩

theorem writeLeaf_later (later : Later c d) (reference : l.parameter? = none) :
    (exec (writeLeaf l) d).1 = (exec (writeLeaf l) c).1 := by
  have related : Related (fun d e => Later c d ∧ Later c e) (EqualIf True) (writeLeaf l)
      (writeLeaf l) := by
    refine related_writeLeaf (congruent_later c) (fun _ _ => trivial) fun name is => ?_
    subst is
    cases reference
  have alike := related d c ⟨later, .refl c⟩
  generalize exec (writeLeaf l) d = x at alike
  generalize exec (writeLeaf l) c = y at alike
  cases alike with
  | ok same _ => exact congrArg Except.ok (same trivial)
  | error _ => rfl

theorem looking_writeLeaf (reference : l.parameter? = none) : Looking (writeLeaf l) := by
  cases l with
  | literal v t => exact looking_literal v t
  | parameter name => cases reference
  | column path => exact looking_renderColumn path
  | table path => exact looking_renderTable path

/-- What writing the leaves records, and where the placeholders are in the texts. -/
theorem occurEach_of_writeLeaves {ls : List Expr.Leaf} {c after : Context} {texts : List String}
    (run : exec (ls.mapM writeLeaf) c = (.ok texts, after)) :
    texts.length = ls.length ∧ ∃ tokens, tokens.Sublist texts ∧
      c.parameters.occurEach c.writer.dialect (ls.filterMap Expr.Leaf.parameter?) =
        .ok (tokens, after.parameters) := by
  induction ls generalizing c texts with
  | nil =>
    cases run
    exact ⟨rfl, [], List.Sublist.refl _, rfl⟩
  | cons l ls ih =>
    obtain ⟨text, others, middle, rfl, first, rest⟩ := exec_mapM_cons_ok run
    obtain ⟨length, tokens, sub, occurs⟩ := ih rest
    refine ⟨congrArg (· + 1) length, ?_⟩
    cases name? : l.parameter? with
    | none =>
      have looked := looking_writeLeaf name? c
      rw [first] at looked
      rw [looked.parameters, looked.writer] at occurs
      rw [List.filterMap_cons_none name?]
      exact ⟨tokens, sub.cons text, occurs⟩
    | some name =>
      obtain ⟨token, parameters, occur, written⟩ := exec_parameter name c
      rw [Expr.Leaf.eq_parameter name?] at first
      cases first.symm.trans written
      refine ⟨text :: tokens, sub.cons_cons text, ?_⟩
      rw [List.filterMap_cons_some name?, Parameters.occurEach, occur]
      exact congrArg (fun rest => rest >>= fun rest => Except.ok (text :: rest.1, rest.2)) occurs

/-- Rendering that succeeds records the parameters in the order in which they are written. -/
theorem occurEach_of_render {e : Expr} {c after : Context} {text : String}
    (run : exec (render e) c = (.ok text, after)) : ∃ tokens, Stand tokens text ∧
      c.parameters.occurEach c.writer.dialect e.placeholders = .ok (tokens, after.parameters) := by
  rw [exec_render] at run
  cases written : exec (e.leaves.mapM writeLeaf) c with
  | mk result last =>
    rw [written] at run
    cases result with
    | error e => cases run
    | ok texts =>
      cases run
      obtain ⟨length, tokens, sub, occurs⟩ := occurEach_of_writeLeaves written
      rw [e.placeholders_eq_leaves]
      exact ⟨tokens, (Expr.stand_refill length).sublist sub, occurs⟩

/-- The error of an action in a context. -/
def fault? {α : Type} (c : Context) (a : Action α) : Option StatementError :=
  match (c.run a).1 with
  | .ok _ => none
  | .error e => some e

theorem run_eq_exec {α : Type} (c : Context) (a : Action α) : c.run a = exec a c := rfl

theorem fault?_eq_none {α : Type} {a : Action α} :
    c.fault? a = none ↔ ∃ x, (c.run a).1 = .ok x := by
  unfold fault?
  cases (c.run a).1 <;> simp

theorem fault?_eq_some {α : Type} {a : Action α} {error : StatementError} :
    c.fault? a = some error ↔ (c.run a).1 = .error error := by
  unfold fault?
  cases (c.run a).1 <;> simp

theorem fault?_parameter (c : Context) (name : String) : c.fault? (parameter name) = none := by
  obtain ⟨token, parameters, _, run⟩ := exec_parameter name c
  exact fault?_eq_none.mpr ⟨token, congrArg Prod.fst run⟩

theorem fault?_writeLeaf_later (later : Later c d) :
    d.fault? (writeLeaf l) = c.fault? (writeLeaf l) := by
  cases name? : l.parameter? with
  | none =>
    have same : (d.run (writeLeaf l)).1 = (c.run (writeLeaf l)).1 := writeLeaf_later later name?
    rw [fault?, same]
    rfl
  | some name =>
    rw [Expr.Leaf.eq_parameter name?]
    exact (fault?_parameter d name).trans (fault?_parameter c name).symm

theorem fault?_writeLeaves (later : Later c d) (ls : List Expr.Leaf) :
    d.fault? (ls.mapM writeLeaf) = ls.findSome? fun l => c.fault? (writeLeaf l) := by
  induction ls generalizing d with
  | nil => rfl
  | cons l ls ih =>
    have next := ih (later.trans (later_writeLeaf l d))
    rw [List.findSome?_cons, ← fault?_writeLeaf_later later, ← next]
    simp only [fault?, run_eq_exec, exec_mapM_cons]
    generalize exec (writeLeaf l) d = x
    obtain ⟨result, middle⟩ := x
    cases result with
    | error e => rfl
    | ok text =>
      dsimp only
      cases (exec (ls.mapM writeLeaf) middle).1 <;> rfl

/-- Rendering fails with the error of the first leaf that fails alone. -/
theorem fault?_render (c : Context) (e : Expr) :
    c.fault? (render e) = e.leaves.findSome? fun l => c.fault? (writeLeaf l) := by
  rw [← fault?_writeLeaves (.refl c)]
  simp only [fault?, run_eq_exec, exec_render]
  generalize exec (e.leaves.mapM writeLeaf) c = x
  obtain ⟨result, after⟩ := x
  cases result <;> rfl

/-- The error of a reference that is rendered alone. -/
def referenceFault? (c : Context) (x : Expr) : Option StatementError :=
  if x.isReference then c.fault? (render x) else none

theorem referenceFault?_eq (c : Context) (x : Expr) :
    c.referenceFault? x = x.leaf?.bind fun l => c.fault? (writeLeaf l) := by
  have alone : ∀ l, x.leaves = [l] → c.fault? (render x) = c.fault? (writeLeaf l) := by
    intro l only
    rw [fault?_render, only, List.findSome?_singleton]
  cases x with
  | literal v t => exact alone (.literal v t) rfl
  | column p => exact alone (.column p) rfl
  | table p => exact alone (.table p) rfl
  | parameter name => exact (fault?_parameter c name).symm
  | _ => rfl

theorem fault?_render_visit (c : Context) (e : Expr) :
    c.fault? (render e) = e.visit.findSome? c.referenceFault? := by
  have pointwise : c.referenceFault? = fun x => x.leaf?.bind fun l => c.fault? (writeLeaf l) :=
    funext (referenceFault?_eq c)
  rw [fault?_render, Expr.leaves, pointwise, ← List.head?_filterMap, List.filterMap_filterMap,
    List.head?_filterMap]

/-- Rendering succeeds if and only if every reference of the expression does so alone, it fails with
the error of the first one that does not, and it records the parameters in the order in which their
placeholders are written. -/
theorem render_checks_references (c : Context) (e : Expr) :
    ((∃ text, (c.run (render e)).1 = .ok text) ↔
      ∀ x ∈ e.visit, x.isReference = true → ∃ text, (c.run (render x)).1 = .ok text) ∧
    (∀ error, (c.run (render e)).1 = .error error ↔
      e.visit.findSome? c.referenceFault? = some error) ∧
    ∀ text, (c.run (render e)).1 = .ok text → ∃ tokens, Stand tokens text ∧
      c.parameters.occurEach c.writer.dialect e.placeholders =
        .ok (tokens, (c.run (render e)).2.parameters) := by
  refine ⟨?_, ?_, ?_⟩
  · rw [← fault?_eq_none, fault?_render_visit, List.findSome?_eq_none_iff]
    refine forall_congr' fun x => forall_congr' fun _ => ?_
    rw [← fault?_eq_none, referenceFault?]
    split <;> simp_all
  · intro error
    rw [← fault?_eq_some, fault?_render_visit]
  · intro text ok
    exact occurEach_of_render (Prod.ext ok rfl)

def salesContext : Context :=
  { writer := { dialect := .generic }
    resolver := .new (.ofNamespace ⟨"shop",
      [⟨"orders", false, [⟨"id", .integer, false, false, none⟩], []⟩,
        ⟨"items", false, [⟨"sku", .string, false, false, none⟩], []⟩]⟩) (.space "shop")
    grammar := ⟨Operators.standard, ⟨⟨2024, 1, 1⟩, 0, 0⟩⟩ }

/-- A comparison whose references are all accepted, and a conjunction that is refused for a column
that is not there. -/
theorem render_checks_references_of_sales :
    let accepted := Expr.combine .eq (.column ["orders", "id"]) (.parameter "n")
    let refused := Expr.combine .and accepted (.column ["orders", "size"])
    (∀ x ∈ accepted.visit, x.isReference = true →
      ∃ text, (salesContext.run (render x)).1 = .ok text) ∧
    (∃ tokens, Stand tokens "\"orders\".\"id\" = :n" ∧
      salesContext.parameters.occurEach .generic ["n"] =
        .ok (tokens, (salesContext.run (render accepted)).2.parameters)) ∧
    refused.visit.findSome? salesContext.referenceFault? =
      some (.resolution ⟨["orders", "size"], .column, .notFound⟩) ∧
    ¬∀ x ∈ refused.visit, x.isReference = true →
      ∃ text, (salesContext.run (render x)).1 = .ok text := by
  intro accepted refused
  have rendered : (salesContext.run (render accepted)).1 = .ok "\"orders\".\"id\" = :n" := rfl
  have fails : (salesContext.run (render refused)).1 =
      .error (.resolution ⟨["orders", "size"], .column, .notFound⟩) := rfl
  obtain ⟨succeeds, -, placeholders⟩ := render_checks_references salesContext accepted
  obtain ⟨refuses, errors, -⟩ := render_checks_references salesContext refused
  refine ⟨succeeds.mp ⟨_, rendered⟩, placeholders _ rendered, (errors _).mp fails, ?_⟩
  intro each
  obtain ⟨text, ok⟩ := refuses.mpr each
  cases fails.symm.trans ok

end Context
end SqlFragment
