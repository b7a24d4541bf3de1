import SqlFragment.Proofs.Statement.Invariant
import SqlFragment.Proofs.Statement.Rendering

/-
References that are looked up and references that are rendered. Rendering looks a path up unless it
begins with the alias of a derived table or is that of a computed column, which are checked against
the alias alone. Look-ups do not know these two, so a column that is found in the schema is refused
when it is rendered, if a derived table without that column hides its table.
-/
namespace SqlFragment.Context

def Finds (c : Context) (kind : ElementKind) (path : Path) : Prop :=
  ∃ e, (c.run (find kind path)).1 = .ok e

def Renders (c : Context) (e : Expr) : Prop := ∃ text, (c.run (render e)).1 = .ok text

def Answers (c : Context) (name : String) (arguments : List Value) : Prop :=
  ∃ v, (c.run (invoke name arguments)).1 = .ok v

/-- A column is asked of a derived table that does not have it. -/
def LacksColumn (c : Context) (path : Path) : Prop :=
  ∃ name column t, path = [name, column] ∧ c.resolver.scope.alias? name = some (.table t) ∧
    t.hasColumn column = false

section
variable {c : Context} {kind : ElementKind} {path : Path}

theorem finds_iff : c.Finds kind path ↔ ∃ e, (c.resolver.find kind path).1 = .ok e := by
  unfold Finds
  rw [run_eq_exec, exec_find]
  cases (c.resolver.find kind path).1 with
  | error e =>
    constructor
    · intro ⟨_, found⟩
      cases found
    · intro ⟨_, found⟩
      cases found
  | ok e => exact iff_of_true ⟨e, rfl⟩ ⟨e, rfl⟩

theorem renders_column : c.Renders (.column path) ↔ c.fault? (renderColumn path) = none := by
  unfold Renders
  rw [← fault?_eq_none, fault?_render]
  have leaves : (Expr.column path).leaves = [.column path] := rfl
  rw [leaves, List.findSome?_singleton]
  rfl

theorem renders_table : c.Renders (.table path) ↔ c.fault? (renderTable path) = none := by
  unfold Renders
  rw [← fault?_eq_none, fault?_render]
  have leaves : (Expr.table path).leaves = [.table path] := rfl
  rw [leaves, List.findSome?_singleton]
  rfl

theorem fault?_find_bind {α : Type} {k : Element → Action α}
    (succeeds : ∀ (e : Element) (d : Context), d.fault? (k e) = none) :
    c.fault? (find kind path >>= k) = none ↔ c.Finds kind path := by
  rw [fault?_eq_none, finds_iff]
  simp only [run_eq_exec, exec_bind, exec_find]
  cases (c.resolver.find kind path).1 with
  | error e =>
    constructor
    · intro ⟨_, answer⟩
      cases answer
    · intro ⟨_, found⟩
      cases found
  | ok e =>
    let after := { c with resolver := (c.resolver.find kind path).2 }
    exact iff_of_true (fault?_eq_none.mp (succeeds e after)) ⟨e, rfl⟩

theorem fault?_get_bind {α : Type} (k : Context → Action α) :
    c.fault? (get >>= k) = c.fault? (k c) := by
  unfold fault?
  rw [run_eq_exec, run_eq_exec, exec_get_bind]

theorem renders_derived {name column : String} {t : TableReference}
    (derived : c.resolver.scope.alias? name = some (.table t)) :
    c.Renders (.column [name, column]) ↔ t.hasColumn column = true := by
  rw [renders_column, renderColumn, fault?_get_bind]
  simp only [List.head?_cons, Option.bind_some, derived]
  split
  · rename_i has
    exact iff_of_true rfl has
  · rename_i lacks
    exact iff_of_false nofun lacks

/-- All other columns that are no computed ones are looked up. -/
theorem renders_searched_column
    (searched : ∀ name column t, path = [name, column] →
      c.resolver.scope.alias? name ≠ some (.table t))
    (uncomputed : ∀ name column, path = [name] →
      c.resolver.scope.alias? name ≠ some (.column column)) :
    c.Renders (.column path) ↔ c.Finds .column path := by
  rw [renders_column, renderColumn, fault?_get_bind]
  dsimp only
  split
  · rename_i aliased
    exact absurd aliased (searched _ _ _ rfl)
  · rename_i aliased
    exact absurd aliased (uncomputed _ _ rfl)
  · apply fault?_find_bind
    intro e d
    split <;> rfl

theorem renders_computed {name : String} {column : ColumnReference}
    (computed : c.resolver.scope.alias? name = some (.column column)) :
    c.Renders (.column [name]) := by
  rw [renders_column, renderColumn, fault?_get_bind]
  simp only [List.head?_cons, Option.bind_some, computed]
  rfl

theorem renders_derived_table {name : String} {t : TableReference}
    (derived : c.resolver.scope.alias? name = some (.table t)) : c.Renders (.table [name]) := by
  rw [renders_table, renderTable, fault?_get_bind]
  simp only [List.head?_cons, Option.bind_some, derived]
  rfl

theorem renders_searched_table
    (searched : ∀ name t, path = [name] → c.resolver.scope.alias? name ≠ some (.table t)) :
    c.Renders (.table path) ↔ c.Finds .table path := by
  rw [renders_table, renderTable, fault?_get_bind]
  dsimp only
  split
  · rename_i aliased
    exact absurd aliased (searched _ _ rfl)
  · apply fault?_find_bind
    intro e d
    split <;> rfl

theorem answers_findNamed {capability text : String} {more : List Value} :
    c.fault? (findNamed kind capability (.text text :: more)) = none ↔
      c.Finds kind (Path.parse text) := by
  have same : findNamed kind capability (.text text :: more) =
      (find kind (Path.parse text) >>= fun e => pure (.text e.path.display)) := rfl
  rw [same]
  apply fault?_find_bind
  intro e d
  rfl

theorem answers_find_column {text : String} {more : List Value} :
    c.Answers "find_column" (.text text :: more) ↔ c.Finds .column (Path.parse text) := by
  rw [Answers, ← fault?_eq_none, invoke, fault?_get_bind]
  exact answers_findNamed

theorem answers_find_table {text : String} {more : List Value} :
    c.Answers "find_table" (.text text :: more) ↔ c.Finds .table (Path.parse text) := by
  rw [Answers, ← fault?_eq_none, invoke, fault?_get_bind]
  exact answers_findNamed

theorem renders_of_finds_column (found : c.Finds .column path) :
    c.Renders (.column path) ↔ ¬c.LacksColumn path := by
  by_cases derived : ∃ name column t, path = [name, column] ∧
      c.resolver.scope.alias? name = some (.table t)
  · obtain ⟨name, column, t, rfl, aliased⟩ := derived
    rw [renders_derived aliased]
    constructor
    · intro has ⟨_, _, t', same, aliased', lacks⟩
      cases same
      cases aliased.symm.trans aliased'
      cases has.symm.trans lacks
    · intro kept
      cases has : t.hasColumn column with
      | true => rfl
      | false => exact absurd ⟨name, column, t, rfl, aliased, has⟩ kept
  · have kept : ¬c.LacksColumn path := by
      intro ⟨name, column, t, same, aliased, _⟩
      exact derived ⟨name, column, t, same, aliased⟩
    apply iff_of_true _ kept
    by_cases computed : ∃ name column, path = [name] ∧
        c.resolver.scope.alias? name = some (.column column)
    · obtain ⟨name, column, rfl, aliased⟩ := computed
      exact renders_computed aliased
    · apply (renders_searched_column _ _).mpr found
      · intro name column t same aliased
        exact derived ⟨name, column, t, same, aliased⟩
      · intro name column same aliased
        exact computed ⟨name, column, same, aliased⟩

theorem renders_of_finds_table (found : c.Finds .table path) : c.Renders (.table path) := by
  by_cases derived : ∃ name t, path = [name] ∧ c.resolver.scope.alias? name = some (.table t)
  · obtain ⟨name, t, rfl, aliased⟩ := derived
    exact renders_derived_table aliased
  · apply (renders_searched_table _).mpr found
    intro name t same aliased
    exact derived ⟨name, t, same, aliased⟩

end

section
variable {c : Context}

/-- After every session the caches hold what look-ups would find. -/
theorem faithful_runAll (faithful : c.resolver.Faithful) (steps : List Step) :
    (c.runAll steps).2.resolver.Faithful :=
  (kept_each Resolver.kept_faithful).runAll faithful steps

theorem remembered?_of_alias (faithful : c.resolver.Faithful) {name : String} {a : Alias}
    (aliased : c.resolver.scope.alias? name = some a) (kind : ElementKind) (rest : Path) :
    c.resolver.remembered? kind (name :: rest) = none := by
  unfold Resolver.remembered?
  split
  · rfl
  · cases held : c.resolver.scope.cached? kind (name :: rest) with
    | none => rfl
    | some e =>
      have free := (faithful _ List.mem_cons_self).unaliased kind (name :: rest) e held
      simp [Scope.isAlias, aliased] at free

/-- The alias of a table hides what the schema has under its name. -/
theorem finds_aliased_column (faithful : c.resolver.Faithful) {name host : String}
    {home : Option String} (visible : name ≠ "") (plain : '.' ∉ name.toList)
    (aliased : c.resolver.scope.alias? name = some (.element (.table home host)))
    (column : String) :
    c.Finds .column [name, column] ↔
      (c.resolver.schema.column? home host column).isSome = true := by
  have parsed : Path.parse name = [name] := by
    rw [Path.parse_of_not_mem plain]
    simp [visible]
  have table : (c.resolver.find .table [name]).1 = .ok (.table home host) := by
    have element : c.resolver.scope.aliasedElement? name = some (.table home host) := by
      rw [Scope.aliasedElement?, aliased]
    rw [Resolver.find_answer, remembered?_of_alias faithful aliased]
    simp only [Resolver.search, Resolver.resolveTable?, element, Resolver.answer]
  rw [finds_iff, Resolver.find_answer, remembered?_of_alias faithful aliased]
  simp only [Resolver.search, parsed, table, Resolver.columnAnswer, Resolver.columnOf?]
  cases c.resolver.schema.column? home host column <;> simp [Resolver.answer]

end

/-- In every state of a session a column that is found is rendered, unless a derived table without
it goes by the name of its table, and a table that is found is rendered. Where no derived table and
no computed column goes by the first name of a path, the path is rendered if and only if it is
found; in particular an alias that stands for a table hides the table of that name in both. -/
theorem found_references_render (start : Context) (schema : Schema) (pivot : Element)
    (fresh : start.resolver = .new schema pivot) (steps : List Step) :
    let c := (start.runAll steps).2
    (∀ path, c.Finds .column path → (c.Renders (.column path) ↔ ¬c.LacksColumn path)) ∧
    (∀ text more, c.Answers "find_column" (.text text :: more) →
      (c.Renders (.column (Path.parse text)) ↔ ¬c.LacksColumn (Path.parse text))) ∧
    (∀ path, c.Finds .table path → c.Renders (.table path)) ∧
    (∀ text more, c.Answers "find_table" (.text text :: more) →
      c.Renders (.table (Path.parse text))) ∧
    (∀ path, (∀ name ∈ path.head?, ∀ a, c.resolver.scope.alias? name = some a →
        ∃ e, a = .element e) →
      (c.Renders (.column path) ↔ c.Finds .column path) ∧
      (c.Renders (.table path) ↔ c.Finds .table path)) ∧
    ∀ name home host column, name ≠ "" → '.' ∉ name.toList →
      c.resolver.scope.alias? name = some (.element (.table home host)) →
      (c.Finds .column [name, column] ↔
        (c.resolver.schema.column? home host column).isSome = true) ∧
      (c.Renders (.column [name, column]) ↔
        (c.resolver.schema.column? home host column).isSome = true) := by
  intro c
  have faithful : c.resolver.Faithful := by
    apply faithful_runAll
    rw [fresh]
    exact Resolver.faithful_new schema pivot
  have searched (path : Path) (elements : ∀ name ∈ path.head?, ∀ a,
      c.resolver.scope.alias? name = some a → ∃ e, a = .element e) :
      (c.Renders (.column path) ↔ c.Finds .column path) ∧
      (c.Renders (.table path) ↔ c.Finds .table path) := by
    constructor
    · apply renders_searched_column
      · rintro name column t rfl aliased
        obtain ⟨e, other⟩ := elements name rfl _ aliased
        cases other
      · rintro name column rfl aliased
        obtain ⟨e, other⟩ := elements name rfl _ aliased
        cases other
    · apply renders_searched_table
      rintro name t rfl aliased
      obtain ⟨e, other⟩ := elements name rfl _ aliased
      cases other
  refine ⟨fun path => renders_of_finds_column, ?_, fun path => renders_of_finds_table, ?_, searched,
    ?_⟩
  · intro text more answers
    exact renders_of_finds_column (answers_find_column.mp answers)
  · intro text more answers
    exact renders_of_finds_table (answers_find_table.mp answers)
  · intro name home host column visible plain aliased
    have found := finds_aliased_column faithful visible plain aliased column
    refine ⟨found, (searched [name, column] ?_).1.trans found⟩
    rintro _ ⟨rfl⟩ a other
    exact ⟨_, Option.some.inj (other.symm.trans aliased)⟩

/-- Each of the two tables is hidden: one by the other, and one by a derived table. -/
def hidingAliases : List Step :=
  [.push (.table (some "shop") "orders"),
    .setAlias "orders" (.element (.table (some "shop") "items")),
    .setAlias "items" (.table ⟨"items", ["n", "sku"]⟩)]

/-- A table that is hidden by another one is hidden for both, and a derived table does not refuse
the columns that it has. -/
theorem found_references_render_under_aliases :
    let c := (salesContext.runAll hidingAliases).2
    c.Finds .column ["items", "sku"] ∧ c.Renders (.column ["items", "sku"]) ∧
      c.Renders (.column ["orders", "sku"]) ∧ ¬c.Renders (.column ["orders", "id"]) := by
  intro c
  obtain ⟨columns, _, _, _, _, hides⟩ :=
    found_references_render salesContext _ _ rfl hidingAliases
  have found : c.Finds .column ["items", "sku"] := ⟨_, rfl⟩
  have held : ¬c.LacksColumn ["items", "sku"] := by
    rintro ⟨name, column, t, ⟨rfl⟩, ⟨rfl⟩, lacks⟩
    exact absurd lacks (by decide)
  refine ⟨found, (columns _ found).mpr held, ?_, ?_⟩
  · exact (hides "orders" _ _ "sku" (by decide) (by decide) rfl).2.mpr rfl
  · intro renders
    have has := (hides "orders" _ _ "id" (by decide) (by decide) rfl).2.mp renders
    exact absurd has (by decide)

/-- A column of the schema is found and yet refused, where a derived table hides its table. -/
theorem found_but_not_rendered :
    let c := (salesContext.runAll [.setAlias "orders" (.table ⟨"orders", ["n"]⟩)]).2
    c.Finds .column ["orders", "id"] ∧ c.Answers "find_column" [.text "orders.id"] ∧
      ¬c.Renders (.column ["orders", "id"]) := by
  intro c
  refine ⟨⟨_, rfl⟩, answers_find_column.mpr ⟨_, rfl⟩, ?_⟩
  intro renders
  have has : (⟨"orders", ["n"]⟩ : TableReference).hasColumn "id" = true :=
    (renders_derived rfl).mp renders
  exact absurd has (by decide)

end SqlFragment.Context
