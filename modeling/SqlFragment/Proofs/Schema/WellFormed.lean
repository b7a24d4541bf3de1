import SqlFragment.Schema.Declaration

/-
Well-formed declarations, level by level: names that tell siblings apart, constraints on columns
that are there, at most one primary key, and foreign keys that lead to a table with the columns.
Main statement: the checks of a declaration pass if and only if it is well formed.
-/
namespace SqlFragment

def Named (names : List String) : Prop := names.Nodup ∧ ∀ name ∈ names, name ≠ ""

structure Constraint.WellFormed (columns : List String) (c : Constraint) : Prop where
  some : c.columns ≠ []
  known : ∀ name ∈ c.columns, name ∈ columns
  paired : ∀ table referenced, c.kind = .foreignKey table referenced →
    referenced.length = c.columns.length

structure TableDeclaration.WellFormed (t : TableDeclaration) : Prop where
  name : t.name ≠ ""
  columns : Named (t.columns.map ColumnDeclaration.name)
  constraints : Named (t.constraints.map Constraint.name)
  each : ∀ c ∈ t.constraints, c.WellFormed (t.columns.map ColumnDeclaration.name)
  key : t.constraints.Pairwise fun c c' => ¬(c.kind = .primaryKey ∧ c'.kind = .primaryKey)

structure NamespaceDeclaration.WellFormed (n : NamespaceDeclaration) : Prop where
  name : n.name ≠ ""
  tables : Named (n.tables.map TableDeclaration.name)
  each : ∀ t ∈ n.tables, t.WellFormed

/-- A path refers to a table of the namespace it is used in, or else to one of any namespace. -/
def DatasourceDeclaration.Refers (d : DatasourceDeclaration) (space : String) (path : Path)
    (t : TableDeclaration) : Prop :=
  d.tables.get? (space :: path) = some t ∨
    d.tables.get? (space :: path) = none ∧ d.tables.get? path = some t

/-- A foreign key of a table in `space` leads to a declared table that has the columns. -/
def DatasourceDeclaration.Leads (d : DatasourceDeclaration) (space : String) (c : Constraint) :
    Prop :=
  ∀ path columns, c.kind = .foreignKey path columns →
    ∃ target, d.Refers space path target ∧
      ∀ column ∈ columns, column ∈ target.columns.map ColumnDeclaration.name

structure DatasourceDeclaration.WellFormed (d : DatasourceDeclaration) : Prop where
  name : d.name ≠ ""
  spaces : Named (d.spaces.map NamespaceDeclaration.name)
  each : ∀ n ∈ d.spaces, n.WellFormed
  references : ∀ n ∈ d.spaces, ∀ t ∈ n.tables, ∀ c ∈ t.constraints, d.Leads n.name c

section
variable {ε ε' α : Type}

theorem bind_eq_ok {first : Except ε Unit} {second : Unit → Except ε Unit} :
    (first >>= second) = .ok () ↔ first = .ok () ∧ second () = .ok () := by
  cases first with
  | error e => exact ⟨nofun, fun both => nomatch both.1⟩
  | ok _ => exact ⟨fun passed => ⟨rfl, passed⟩, fun both => both.2⟩

theorem forM_eq_ok {check : α → Except ε Unit} {xs : List α} :
    xs.forM check = .ok () ↔ ∀ x ∈ xs, check x = .ok () := by
  induction xs with
  | nil => simp [List.forM, pure, Except.pure]
  | cons x xs ih =>
    rw [List.forall_mem_cons, ← ih]
    exact bind_eq_ok

theorem mapError_eq_ok {check : Except ε Unit} {f : ε → ε'} :
    check.mapError f = .ok () ↔ check = .ok () := by
  cases check with
  | error e => exact ⟨nofun, nofun⟩
  | ok _ => exact ⟨fun _ => rfl, fun _ => rfl⟩

theorem unless_eq_ok {p : Prop} [Decidable p] {e : ε} :
    (if p then throw e else pure () : Except ε Unit) = .ok () ↔ ¬p := by
  by_cases p <;> simp_all [throw, throwThe, MonadExceptOf.throw, pure, Except.pure]

end

section
variable {kind : ElementKind} {names : List String} {name : String}

/-- The names that were seen are those that the next ones may not repeat. -/
theorem checkNames_eq_ok_of_seen {seen : List String} :
    checkNames kind seen names = .ok () ↔ Named names ∧ ∀ name ∈ names, name ∉ seen := by
  induction names generalizing seen with
  | nil => simp [checkNames, Named]
  | cons name names ih =>
    have step : checkNames kind seen (name :: names) = .ok () ↔
        name ≠ "" ∧ name ∉ seen ∧ checkNames kind (name :: seen) names = .ok () := by
      by_cases empty : name = ""
      · simp [checkNames, empty]
      by_cases repeated : name ∈ seen
      · simp [checkNames, empty, repeated]
      · simp [checkNames, empty, repeated]
    rw [step, ih]
    simp only [Named, List.nodup_cons, List.forall_mem_cons]
    simp only [List.mem_cons, not_or]
    constructor
    · rintro ⟨visible, fresh, ⟨distinct, others⟩, apart⟩
      exact ⟨⟨⟨fun mem => (apart name mem).1 rfl, distinct⟩, visible, others⟩, fresh,
        fun other mem => (apart other mem).2⟩
    · rintro ⟨⟨⟨new, distinct⟩, visible, others⟩, fresh, apart⟩
      exact ⟨visible, fresh, ⟨distinct, others⟩,
        fun other mem => ⟨fun same => new (same ▸ mem), apart other mem⟩⟩

theorem checkNames_eq_ok : checkNames kind [] names = .ok () ↔ Named names := by
  simp [checkNames_eq_ok_of_seen]

theorem checkNames_single : checkNames kind [] [name] = .ok () ↔ name ≠ "" := by
  simp [checkNames_eq_ok, Named]

end

namespace TableDeclaration
variable {t : TableDeclaration}

theorem find?_missing {columns : List String} :
    (columns.find? fun name => !t.hasColumn name) = none ↔
      ∀ column ∈ columns, column ∈ t.columns.map ColumnDeclaration.name := by
  simp [hasColumn]

theorem checkConstraint_eq_ok {c : Constraint} :
    t.checkConstraint c = .ok () ↔ c.WellFormed (t.columns.map ColumnDeclaration.name) := by
  unfold checkConstraint
  by_cases some : c.columns = []
  · rw [if_pos (List.isEmpty_iff.mpr some)]
    exact ⟨nofun, fun formed => absurd some formed.some⟩
  rw [if_neg (fun empty => some (List.isEmpty_iff.mp empty))]
  cases found : c.columns.find? fun name => !t.hasColumn name with
  | some missing =>
    refine ⟨nofun, fun formed => ?_⟩
    rw [find?_missing.mpr formed.known] at found
    cases found
  | none =>
    have known := find?_missing.mp found
    cases kind : c.kind with
    | primaryKey | unique => exact ⟨fun _ => ⟨some, known, by simp [kind]⟩, fun _ => rfl⟩
    | foreignKey table referenced =>
      by_cases paired : referenced.length = c.columns.length
      · simp only [if_pos paired, true_iff]
        refine ⟨some, known, fun _ _ same => ?_⟩
        obtain ⟨-, rfl⟩ : table = _ ∧ referenced = _ := by simpa [kind] using same
        exact paired
      · simp only [if_neg paired, reduceCtorEq, false_iff]
        exact fun formed => paired (formed.paired table referenced kind)

theorem countP_le_one_iff {α : Type} {p : α → Bool} {xs : List α} :
    xs.countP p ≤ 1 ↔ xs.Pairwise fun x y => ¬(p x = true ∧ p y = true) := by
  induction xs with
  | nil => simp
  | cons x xs ih =>
    rw [List.pairwise_cons, ← ih, List.countP_cons]
    by_cases held : p x = true
    · have others : xs.countP p = 0 ↔ ∀ y ∈ xs, ¬p y = true := List.countP_eq_zero
      simp only [held, if_true, true_and, ← others]
      omega
    · simp [held]

theorem check_eq_ok : t.check = .ok () ↔ t.WellFormed := by
  have key : ¬1 < t.constraints.countP Constraint.isPrimaryKey ↔
      t.constraints.Pairwise fun c c' => ¬(c.kind = .primaryKey ∧ c'.kind = .primaryKey) := by
    rw [Nat.not_lt, countP_le_one_iff]
    simp [Constraint.isPrimaryKey]
  unfold check
  rw [bind_eq_ok, bind_eq_ok, bind_eq_ok, bind_eq_ok, unless_eq_ok, checkNames_single,
    checkNames_eq_ok, mapError_eq_ok, checkNames_eq_ok, forM_eq_ok, key]
  simp only [checkConstraint_eq_ok]
  constructor
  · rintro ⟨name, columns, constraints, each, key⟩
    exact ⟨name, columns, constraints, each, key⟩
  · rintro ⟨name, columns, constraints, each, key⟩
    exact ⟨name, columns, constraints, each, key⟩

end TableDeclaration

theorem NamespaceDeclaration.check_eq_ok {n : NamespaceDeclaration} :
    n.check = .ok () ↔ n.WellFormed := by
  unfold check
  rw [bind_eq_ok, bind_eq_ok, checkNames_single, checkNames_eq_ok, forM_eq_ok]
  simp only [TableDeclaration.check_eq_ok]
  constructor
  · rintro ⟨name, tables, each⟩
    exact ⟨name, tables, each⟩
  · rintro ⟨name, tables, each⟩
    exact ⟨name, tables, each⟩

namespace DatasourceDeclaration
variable {d : DatasourceDeclaration}

theorem referenced?_iff_refers {space : String} {path : Path} {t : TableDeclaration} :
    d.referenced? space path = some t ↔ d.Refers space path t := by
  rw [referenced?, Option.orElse_eq_orElse, Option.orElse_eq_or, Option.or_eq_some_iff, Refers]

theorem leads_foreignKey {space : String} {c : Constraint} {path : Path} {columns : List String}
    (foreign : c.kind = .foreignKey path columns) :
    d.Leads space c ↔ ∃ target, d.referenced? space path = some target ∧
      ∀ column ∈ columns, column ∈ target.columns.map ColumnDeclaration.name := by
  simp only [referenced?_iff_refers]
  constructor
  · exact fun leads => leads path columns foreign
  · intro found path' columns' foreign'
    obtain ⟨rfl, rfl⟩ : path = path' ∧ columns = columns' := by simpa [foreign] using foreign'
    exact found

theorem checkReference_eq_ok {space : String} {c : Constraint} :
    d.checkReference space c = .ok () ↔ d.Leads space c := by
  unfold checkReference
  cases kind : c.kind with
  | primaryKey | unique => simp [Leads, kind]
  | foreignKey path columns =>
    rw [leads_foreignKey kind]
    dsimp only
    cases target : d.referenced? space path with
    | none => simp
    | some table =>
      simp only [Option.some.injEq, exists_eq_left', ← TableDeclaration.find?_missing]
      cases columns.find? fun name => !table.hasColumn name <;> simp

theorem checkReferences_eq_ok :
    d.checkReferences = .ok () ↔
      ∀ n ∈ d.spaces, ∀ t ∈ n.tables, ∀ c ∈ t.constraints, d.Leads n.name c := by
  simp only [checkReferences, forM_eq_ok, checkReference_eq_ok]

theorem check_eq_ok : d.check = .ok () ↔ d.WellFormed := by
  unfold check
  rw [bind_eq_ok, bind_eq_ok, bind_eq_ok, checkNames_single, checkNames_eq_ok, forM_eq_ok,
    checkReferences_eq_ok]
  simp only [NamespaceDeclaration.check_eq_ok]
  constructor
  · rintro ⟨name, spaces, each, references⟩
    exact ⟨name, spaces, each, references⟩
  · rintro ⟨name, spaces, each, references⟩
    exact ⟨name, spaces, each, references⟩

theorem eq_build_of_built {d : DatasourceDeclaration} {s : Schema}
    (built : (Declaration.datasource d).build = .ok s) :
    d.check = .ok () ∧ s = .ofDatasource d.build := by
  have checked : (d.check >>= fun _ => pure (Schema.ofDatasource d.build)) = .ok s := built
  cases passed : d.check with
  | error e =>
    rw [passed] at checked
    cases checked
  | ok _ =>
    rw [passed] at checked
    cases checked
    exact ⟨rfl, rfl⟩

theorem built_of_check {d : DatasourceDeclaration} (passed : d.check = .ok ()) :
    (Declaration.datasource d).build = .ok (.ofDatasource d.build) := by
  have checked : (Declaration.datasource d).build =
      (d.check >>= fun _ => pure (Schema.ofDatasource d.build)) := rfl
  rw [checked, passed]
  rfl

end DatasourceDeclaration
end SqlFragment
