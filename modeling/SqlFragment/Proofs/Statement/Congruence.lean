import SqlFragment.Proofs.Dialect.Independence
import SqlFragment.Proofs.Statement.Effects

/-
Contexts that cannot be told apart. Where two contexts answer look-ups in the same way, every action
succeeds in both or fails in both with the same error. Their texts are the same if their writers
are.
-/
namespace SqlFragment.Context

/-- A relation between contexts that answer the look-ups of some paths in the same way. Their
writers are the same where texts are to be. -/
structure Congruent (R : Context → Context → Prop) (Searched : Path → Prop) (sameText : Prop) :
    Prop where
  writer : ∀ {c d : Context}, R c d → sameText → c.writer = d.writer
  alias? : ∀ {c d : Context}, R c d → c.resolver.scope.alias? = d.resolver.scope.alias?
  answer : ∀ {c d : Context} (kind : ElementKind) {path : Path}, R c d → Searched path →
    (c.resolver.find kind path).1 = (d.resolver.find kind path).1
  looked : ∀ {c d : Context} (kind : ElementKind) {path : Path}, R c d → Searched path →
    R { c with resolver := (c.resolver.find kind path).2 }
      { d with resolver := (d.resolver.find kind path).2 }

abbrev EqualIf {α : Type} (sameText : Prop) (x y : α) : Prop := sameText → x = y

section
variable {R : Context → Context → Prop} {Searched : Path → Prop} {sameText : Prop}
  {c d : Context} {path : Path}

theorem related_find (congruent : Congruent R Searched sameText) (kind : ElementKind)
    (searched : Searched path) : Related R Eq (find kind path) (find kind path) := by
  intro c d related
  have after := congruent.looked kind related searched
  rw [exec_find, exec_find, congruent.answer kind related searched]
  cases (d.resolver.find kind path).1 with
  | ok e => exact .ok rfl after
  | error e => exact .error after

theorem related_ofDialect {α : Type} {a b : Except DialectError α} (agree : Agree a b)
    (same : sameText → a = b) :
    Related R (EqualIf sameText) (ofDialect a) (ofDialect b) := by
  cases a <;> cases b <;> cases agree
  · exact related_throw _
  · exact related_pure fun text => Except.ok.inj (same text)

theorem related_literal (congruent : Congruent R Searched sameText) (v : Value) (t : DataType) :
    Related R (EqualIf sameText) (literal v t) (literal v t) := by
  refine related_get.bind fun c d related => ?_
  refine related_ofDialect (c.writer.literal_agree d.writer v t) fun text => ?_
  rw [congruent.writer related text]

theorem Congruent.escapePath_eq (congruent : Congruent R Searched sameText) (related : R c d)
    (p : Path) :
    EqualIf sameText (c.writer.dialect.escapePath p) (d.writer.dialect.escapePath p) :=
  fun text => by rw [congruent.writer related text]

theorem related_renderColumn (congruent : Congruent R Searched sameText)
    (searched : Searched path) :
    Related R (EqualIf sameText) (renderColumn path) (renderColumn path) := by
  refine related_get.bind fun c d related => ?_
  have texts := congruent.escapePath_eq related
  dsimp only
  rw [congruent.alias? related]
  split
  · split
    · exact related_pure (texts _)
    · exact related_throw _
  · exact related_pure (texts _)
  · refine (related_find congruent .column searched).bind fun e f same => ?_
    subst same
    split
    · exact related_pure (texts _)
    · exact related_pure (texts _)

theorem related_renderTable (congruent : Congruent R Searched sameText)
    (searched : Searched path) :
    Related R (EqualIf sameText) (renderTable path) (renderTable path) := by
  refine related_get.bind fun c d related => ?_
  have texts := congruent.escapePath_eq related
  dsimp only
  rw [congruent.alias? related]
  split
  · exact related_pure (texts _)
  · refine (related_find congruent .table searched).bind fun e f same => ?_
    subst same
    split
    · exact related_pure (texts _)
    · exact related_pure (texts _)

theorem related_writeLeaf (congruent : Congruent R Searched sameText) {l : Expr.Leaf}
    (searched : ∀ path, l = .column path ∨ l = .table path → Searched path)
    (occurs : ∀ name, l = .parameter name →
      Related R (EqualIf sameText) (parameter name) (parameter name)) :
    Related R (EqualIf sameText) (writeLeaf l) (writeLeaf l) := by
  cases l with
  | literal v t => exact related_literal congruent v t
  | parameter name => exact occurs name rfl
  | column path => exact related_renderColumn congruent (searched path (.inl rfl))
  | table path => exact related_renderTable congruent (searched path (.inr rfl))

theorem related_mapM {α β : Type} {f : α → Action β} {xs : List α}
    (each : ∀ x ∈ xs, Related R (EqualIf sameText) (f x) (f x)) :
    Related R (EqualIf sameText) (xs.mapM f) (xs.mapM f) := by
  induction xs with
  | nil => exact related_pure fun _ => rfl
  | cons x xs ih =>
    rw [List.mapM_cons]
    refine (each x List.mem_cons_self).bind fun y z same => ?_
    refine (ih fun w mem => each w (List.mem_cons_of_mem x mem)).bind fun ys zs others => ?_
    exact related_pure fun text => by rw [same text, others text]

end

end SqlFragment.Context
