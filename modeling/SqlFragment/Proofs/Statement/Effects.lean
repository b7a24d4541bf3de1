import SqlFragment.Proofs.Expr.Filling
import SqlFragment.Proofs.Resolver.Search
import SqlFragment.Proofs.Statement.Action
import SqlFragment.Proofs.Statement.Parameters

/-
What actions do to a context. Most of them look something up, which adds to the cache and changes
nothing else; rendering records parameters besides, and takes them back when it fails.
-/
namespace SqlFragment

theorem Resolver.Grows.trans {r r' r'' : Resolver} (first : Grows r r') (next : Grows r' r'') :
    Grows r r'' := by
  induction next with
  | refl => exact first
  | store _ found ih => exact ih.store ((first.find_eq _ _).symm.trans found)

namespace Context

/-- The context after look-ups and occurrences of parameters. -/
structure Later (c after : Context) : Prop where
  writer : after.writer = c.writer
  grammar : after.grammar = c.grammar
  resolver : c.resolver.Grows after.resolver

/-- The context after look-ups. -/
structure Looked (c after : Context) : Prop extends Later c after where
  parameters : after.parameters = c.parameters

section
variable {c d e : Context}

theorem Later.refl (c : Context) : Later c c := ⟨rfl, rfl, .refl⟩

theorem Later.trans (first : Later c d) (next : Later d e) : Later c e :=
  ⟨next.writer.trans first.writer, next.grammar.trans first.grammar,
    first.resolver.trans next.resolver⟩

theorem Looked.refl (c : Context) : Looked c c := ⟨.refl c, rfl⟩

theorem looked_find (c : Context) (kind : ElementKind) (path : Path) :
    Looked c { c with resolver := (c.resolver.find kind path).2 } :=
  ⟨⟨rfl, rfl, c.resolver.find_grows path kind⟩, rfl⟩

theorem Looked.trans (first : Looked c d) (next : Looked d e) : Looked c e :=
  ⟨first.toLater.trans next.toLater, next.parameters.trans first.parameters⟩

end

def Looking {α : Type} (a : Action α) : Prop := ∀ c, Looked c (exec a c).2

section
variable {α β : Type} {a : Action α} {k : α → Action β}

theorem looking_pure (x : α) : Looking (pure x) := fun c => .refl c

theorem looking_throw (e : StatementError) : Looking (throw e : Action α) := fun c => .refl c

theorem looking_get : Looking get := fun c => .refl c

theorem Looking.bind (first : Looking a) (next : ∀ x, Looking (k x)) : Looking (a >>= k) := by
  intro c
  have looked := first c
  rw [exec_bind]
  generalize exec a c = x at looked
  obtain ⟨x, after⟩ := x
  cases x with
  | error e => exact looked
  | ok x => exact looked.trans (next x after)

theorem Looking.map (looking : Looking a) (f : α → β) : Looking (f <$> a) := by
  rw [map_eq_pure_bind]
  exact looking.bind fun x => looking_pure (f x)

theorem exec_find (kind : ElementKind) (path : Path) (c : Context) : exec (find kind path) c =
    ((c.resolver.find kind path).1.mapError .resolution,
      { c with resolver := (c.resolver.find kind path).2 }) := by
  unfold find
  rw [exec_get_bind]
  obtain ⟨result, after⟩ := c.resolver.find kind path
  cases result <;> rfl

theorem looking_find (kind : ElementKind) (path : Path) : Looking (find kind path) := by
  intro c
  rw [exec_find]
  exact c.looked_find kind path

theorem looking_ofDialect (outcome : Except DialectError α) : Looking (ofDialect outcome) := by
  unfold ofDialect
  split
  · exact looking_pure _
  · exact looking_throw _

theorem looking_literal (v : Value) (t : DataType) : Looking (literal v t) :=
  looking_get.bind fun _ => looking_ofDialect _

theorem looking_renderColumn (path : Path) : Looking (renderColumn path) := by
  refine looking_get.bind fun c => ?_
  dsimp only
  split
  · split
    · exact looking_pure _
    · exact looking_throw _
  · exact looking_pure _
  · refine (looking_find .column _).bind fun e => ?_
    split <;> exact looking_pure _

theorem looking_renderTable (path : Path) : Looking (renderTable path) := by
  refine looking_get.bind fun c => ?_
  dsimp only
  split
  · exact looking_pure _
  · refine (looking_find .table _).bind fun e => ?_
    split <;> exact looking_pure _

theorem looking_columnType (t : DataType) : Looking (columnType t) :=
  looking_get.bind fun _ => looking_ofDialect _

theorem looking_columnDefinition (column : Column) : Looking (columnDefinition column) :=
  looking_get.bind fun _ => looking_ofDialect _

theorem looking_findNamed (kind : ElementKind) (capability : String) (arguments : List Value) :
    Looking (findNamed kind capability arguments) := by
  unfold findNamed pathArgument
  refine Looking.bind ?_ fun path => (looking_find kind path).bind fun e => looking_pure _
  split
  · exact looking_pure _
  · exact looking_throw _

theorem looking_invoke (name : String) (arguments : List Value) :
    Looking (invoke name arguments) := by
  refine looking_get.bind fun c => ?_
  split
  · exact looking_ofDialect _
  · split
    · exact looking_findNamed _ _ _
    · exact looking_findNamed _ _ _
    · exact looking_findNamed _ _ _
    · split
      · exact looking_pure _
      · exact looking_throw _
    · exact looking_throw _

end

theorem exec_parameter (name : String) (c : Context) : ∃ token parameters,
    c.parameters.occur c.writer.dialect name = .ok (token, parameters) ∧
      exec (parameter name) c = (.ok token, { c with parameters }) := by
  obtain ⟨normalized, _, occurs⟩ := c.parameters.occur_spec c.writer.dialect name
  refine ⟨_, _, occurs, ?_⟩
  rw [parameter, exec_get_bind, occurs]
  rfl

theorem later_writeLeaf (l : Expr.Leaf) (c : Context) : Later c (exec (writeLeaf l) c).2 := by
  cases l with
  | literal v t => exact (looking_literal v t c).toLater
  | parameter name =>
    obtain ⟨token, parameters, _, run⟩ := exec_parameter name c
    rw [writeLeaf, run]
    exact ⟨rfl, rfl, .refl⟩
  | column path => exact (looking_renderColumn path c).toLater
  | table path => exact (looking_renderTable path c).toLater

theorem later_writeLeaves (ls : List Expr.Leaf) (c : Context) :
    Later c (exec (ls.mapM writeLeaf) c).2 := by
  induction ls generalizing c with
  | nil => exact .refl c
  | cons l ls ih =>
    have first := later_writeLeaf l c
    rw [exec_mapM_cons]
    generalize exec (writeLeaf l) c = x at first
    obtain ⟨result, middle⟩ := x
    cases result with
    | error e => exact first
    | ok text => exact first.trans (ih middle)

theorem renderKeeping_eq (e : Expr) : renderKeeping e =
    (fun texts => (e.refill texts).display) <$> e.leaves.mapM writeLeaf := by
  rw [renderKeeping, e.fill_eq_refill]
  simp

/-- Rendering writes the leaves, and takes the parameters back when one of them fails. -/
theorem exec_render (e : Expr) (c : Context) : exec (render e) c =
    match exec (e.leaves.mapM writeLeaf) c with
    | (.ok texts, after) => (.ok (e.refill texts).display, after)
    | (.error error, after) => (.error error, { after with parameters := c.parameters }) := by
  rw [render, exec_get_bind, exec_tryCatch, renderKeeping_eq, exec_map]
  generalize exec (e.leaves.mapM writeLeaf) c = x
  obtain ⟨result, after⟩ := x
  cases result <;> rfl

theorem looked_of_render_fails {e : Expr} {c : Context} {error : StatementError}
    (fails : (exec (render e) c).1 = .error error) : Looked c (exec (render e) c).2 := by
  have later := later_writeLeaves e.leaves c
  rw [exec_render] at fails ⊢
  generalize exec (e.leaves.mapM writeLeaf) c = x at later fails
  obtain ⟨result, after⟩ := x
  cases result with
  | ok texts => cases fails
  | error e => exact ⟨⟨later.writer, later.grammar, later.resolver⟩, rfl⟩

end Context
end SqlFragment
