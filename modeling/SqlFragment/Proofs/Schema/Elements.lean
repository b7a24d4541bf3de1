import SqlFragment.Proofs.Schema.WellFormed

/-
The elements of a schema, each told by the names that lead to it. In a schema that was declared no
name is empty and names are unique among the children of an element, so that no two elements are
told by the same names.
-/
namespace SqlFragment

def Table.elements (home : Option String) (t : Table) : List Element :=
  .table home t.name :: t.columns.map fun c => .column home t.name c.name

def Namespace.elements (n : Namespace) : List Element :=
  .space n.name :: n.tables.flatMap fun t => t.elements (some n.name)

/-- All elements, each before those that lie in it. -/
def Schema.elements : Schema → List Element
  | ofDatasource d => .datasource :: d.spaces.flatMap Namespace.elements
  | ofNamespace n => n.elements
  | ofTable t => t.elements none

structure Table.WellNamed (t : Table) : Prop where
  name : t.name ≠ ""
  columns : Named (t.columns.map Column.name)

structure Namespace.WellNamed (n : Namespace) : Prop where
  name : n.name ≠ ""
  tables : Named (n.tables.map Table.name)
  each : ∀ t ∈ n.tables, t.WellNamed

structure Datasource.WellNamed (d : Datasource) : Prop where
  spaces : Named (d.spaces.map Namespace.name)
  each : ∀ n ∈ d.spaces, n.WellNamed

def Schema.WellNamed : Schema → Prop
  | ofDatasource d => d.WellNamed
  | ofNamespace n => n.WellNamed
  | ofTable t => t.WellNamed

theorem TableDeclaration.wellNamed {t : TableDeclaration} (passed : t.check = .ok ()) :
    t.build.WellNamed := by
  obtain ⟨name, columns, _, _, _⟩ := check_eq_ok.mp passed
  exact ⟨name, by simpa [build, Function.comp_def] using columns⟩

theorem NamespaceDeclaration.wellNamed {n : NamespaceDeclaration} (passed : n.check = .ok ()) :
    n.build.WellNamed := by
  obtain ⟨name, tables, each⟩ := check_eq_ok.mp passed
  refine ⟨name, by simpa [build, TableDeclaration.build, Function.comp_def] using tables, ?_⟩
  intro t mem
  obtain ⟨declared, member, rfl⟩ := List.mem_map.mp mem
  exact TableDeclaration.wellNamed (TableDeclaration.check_eq_ok.mpr (each declared member))

theorem DatasourceDeclaration.wellNamed {d : DatasourceDeclaration} (passed : d.check = .ok ()) :
    d.build.WellNamed := by
  obtain ⟨_, spaces, each, _⟩ := check_eq_ok.mp passed
  refine ⟨by simpa [build, NamespaceDeclaration.build, Function.comp_def] using spaces, ?_⟩
  intro n mem
  obtain ⟨declared, member, rfl⟩ := List.mem_map.mp mem
  exact NamespaceDeclaration.wellNamed (NamespaceDeclaration.check_eq_ok.mpr (each declared member))

/-- Declared schemas have names that are unique among siblings and not empty. -/
theorem Declaration.wellNamed_build {d : Declaration} {s : Schema} (built : d.build = .ok s) :
    s.WellNamed := by
  unfold build at built
  cases passed : d.check with
  | error e =>
    rw [passed] at built
    cases built
  | ok _ =>
    rw [passed] at built
    cases d with
    | datasource d =>
      cases built
      exact DatasourceDeclaration.wellNamed passed
    | space n =>
      cases built
      exact NamespaceDeclaration.wellNamed passed
    | table t =>
      cases built
      exact TableDeclaration.wellNamed passed

def Datasource.columnPaths (d : Datasource) : List Path :=
  d.spaces.flatMap fun n => n.tables.flatMap fun t =>
    t.columns.map fun c => (Element.column (some n.name) t.name c.name).path

section
variable {α : Type} {name : α → String} {paths : α → List Path} {xs : List α}

theorem nodup_singletons (distinct : (xs.map name).Nodup) : (xs.map fun x => [name x]).Nodup := by
  rw [List.Nodup, List.pairwise_map] at distinct ⊢
  exact distinct.imp fun other same => other (List.cons.inj same).1

theorem nodup_flatMap_cons (distinct : (xs.map name).Nodup) (each : ∀ x ∈ xs, (paths x).Nodup) :
    (xs.flatMap fun x => (paths x).map (name x :: ·)).Nodup := by
  refine List.pairwise_flatMap.mpr ⟨?_, ?_⟩
  · intro x mem
    exact List.pairwise_map.mpr ((each x mem).imp fun other same => other (List.cons.inj same).2)
  · rw [List.Nodup, List.pairwise_map] at distinct
    refine distinct.imp ?_
    intro x y other p mem q mem' same
    obtain ⟨_, _, rfl⟩ := List.mem_map.mp mem
    obtain ⟨_, _, rfl⟩ := List.mem_map.mp mem'
    exact other (List.cons.inj same).1

end

theorem Datasource.WellNamed.nodup_keys {α : Type} {d : Datasource} (named : d.WellNamed)
    (f : String → Table → α) : ((d.keyed f).map Prod.fst).Nodup := by
  have keys : (d.keyed f).map Prod.fst =
      d.spaces.flatMap fun n => (n.tables.map fun t => [t.name]).map (n.name :: ·) := by
    simp [keyed, List.map_flatMap, Function.comp_def]
  rw [keys]
  exact nodup_flatMap_cons named.spaces.1 fun n mem => nodup_singletons (named.each n mem).tables.1

theorem Datasource.WellNamed.nodup_columnPaths {d : Datasource} (named : d.WellNamed) :
    d.columnPaths.Nodup := by
  have paths : d.columnPaths = d.spaces.flatMap fun n =>
      (n.tables.flatMap fun t => (t.columns.map fun c => [c.name]).map (t.name :: ·)).map
        (n.name :: ·) := by
    simp [columnPaths, Element.path, List.map_flatMap, Function.comp_def]
  rw [paths]
  refine nodup_flatMap_cons named.spaces.1 fun n mem => ?_
  refine nodup_flatMap_cons (named.each n mem).tables.1 fun t inside => ?_
  exact nodup_singletons ((named.each n mem).each t inside).columns.1

theorem find?_named {α : Type} {name : α → String} {xs : List α} {x : α}
    (distinct : (xs.map name).Nodup) (mem : x ∈ xs) :
    (xs.find? fun y => name y = name x) = some x := by
  induction xs with
  | nil => cases mem
  | cons y xs ih =>
    rw [List.map_cons, List.nodup_cons] at distinct
    rcases List.mem_cons.mp mem with rfl | later
    · simp
    · have other : name y ≠ name x := fun same =>
        distinct.1 (same ▸ List.mem_map_of_mem later)
      simp [other, ih distinct.2 later]

section
variable {home : Option String} {t : Table} {n : Namespace} {x : Element}

theorem Table.mem_elements :
    x ∈ t.elements home ↔
      x = .table home t.name ∨ ∃ c ∈ t.columns, x = .column home t.name c.name := by
  simp only [elements, List.mem_cons, List.mem_map, eq_comm (a := x)]

theorem Namespace.mem_elements :
    x ∈ n.elements ↔ x = .space n.name ∨ ∃ t ∈ n.tables, x ∈ t.elements (some n.name) := by
  simp only [elements, List.mem_cons, List.mem_flatMap]

theorem Table.space?_of_mem (mem : x ∈ t.elements home) : x.space? = home := by
  rcases Table.mem_elements.mp mem with rfl | ⟨c, _, rfl⟩ <;> rfl

theorem Namespace.space?_of_mem (mem : x ∈ n.elements) : x.space? = some n.name := by
  rcases Namespace.mem_elements.mp mem with rfl | ⟨t, _, inside⟩
  · rfl
  · exact Table.space?_of_mem inside

theorem Table.WellNamed.nodup (named : t.WellNamed) : (t.elements home).Nodup := by
  refine List.nodup_cons.mpr ⟨?_, ?_⟩
  · simp
  · have distinct := named.columns.1
    rw [List.Nodup, List.pairwise_map] at distinct ⊢
    refine distinct.imp ?_
    intro c c' other same
    injection same with _ _ names
    exact other names

theorem Namespace.WellNamed.nodup (named : n.WellNamed) : n.elements.Nodup := by
  refine List.nodup_cons.mpr ⟨?_, ?_⟩
  · intro mem
    obtain ⟨t, _, inside⟩ := List.mem_flatMap.mp mem
    rcases Table.mem_elements.mp inside with same | ⟨c, _, same⟩ <;> cases same
  · refine List.pairwise_flatMap.mpr ⟨fun t mem => (named.each t mem).nodup, ?_⟩
    have distinct := named.tables.1
    rw [List.Nodup, List.pairwise_map] at distinct
    refine distinct.imp ?_
    rintro t t' other x inside y inside' rfl
    rcases Table.mem_elements.mp inside with rfl | ⟨c, _, rfl⟩
    · rcases Table.mem_elements.mp inside' with same | ⟨c', _, same⟩
      · injection same with _ names
        exact other names
      · cases same
    · rcases Table.mem_elements.mp inside' with same | ⟨c', _, same⟩
      · cases same
      · injection same with _ names _
        exact other names

/-- No two elements of a schema are told by the same names. -/
theorem Schema.WellNamed.nodup {s : Schema} (named : s.WellNamed) : s.elements.Nodup := by
  cases s with
  | ofTable t => exact Table.WellNamed.nodup named
  | ofNamespace n => exact Namespace.WellNamed.nodup named
  | ofDatasource d =>
    have named : d.WellNamed := named
    refine List.nodup_cons.mpr ⟨?_, ?_⟩
    · intro mem
      obtain ⟨n, _, inside⟩ := List.mem_flatMap.mp mem
      cases Namespace.space?_of_mem inside
    · refine List.pairwise_flatMap.mpr ⟨fun n mem => (named.each n mem).nodup, ?_⟩
      have distinct := named.spaces.1
      rw [List.Nodup, List.pairwise_map] at distinct
      refine distinct.imp ?_
      rintro n n' other x inside y inside' rfl
      have home := (Namespace.space?_of_mem inside).symm.trans (Namespace.space?_of_mem inside')
      exact other (Option.some.inj home)

end

section
variable {s : Schema} {x : Element}

theorem Schema.mem_spaces_of_mem (mem : x ∈ s.elements) {home : String}
    (inside : x.space? = some home) : ∃ n ∈ s.spaces, n.name = home ∧ x ∈ n.elements := by
  cases s with
  | ofTable t =>
    rw [Table.space?_of_mem mem] at inside
    cases inside
  | ofNamespace n =>
    rw [Namespace.space?_of_mem mem] at inside
    exact ⟨n, List.mem_cons_self, Option.some.inj inside, mem⟩
  | ofDatasource d =>
    rcases List.mem_cons.mp mem with rfl | later
    · cases inside
    · obtain ⟨n, member, deep⟩ := List.mem_flatMap.mp later
      rw [Namespace.space?_of_mem deep] at inside
      exact ⟨n, member, Option.some.inj inside, deep⟩

theorem Schema.mem_elements_of_space {n : Namespace} (mem : n ∈ s.spaces) (inside : x ∈ n.elements) :
    x ∈ s.elements := by
  cases s with
  | ofDatasource d => exact List.mem_cons_of_mem _ (List.mem_flatMap.mpr ⟨n, mem, inside⟩)
  | ofNamespace only =>
    cases List.mem_singleton.mp mem
    exact inside
  | ofTable t => cases mem

theorem Schema.space_mem_of_mem (mem : x ∈ s.elements) {home : String}
    (inside : x.space? = some home) : .space home ∈ s.elements := by
  obtain ⟨n, member, rfl, _⟩ := mem_spaces_of_mem mem inside
  exact mem_elements_of_space member List.mem_cons_self

theorem Table.table_mem_of_column {t : Table} {under home : Option String} {table name : String}
    (mem : .column home table name ∈ t.elements under) : .table home table ∈ t.elements under := by
  rcases Table.mem_elements.mp mem with same | ⟨c, _, same⟩
  · cases same
  · injection same with homes tables _
    rw [homes, tables]
    exact List.mem_cons_self

theorem Namespace.table_mem_of_column {n : Namespace} {home : Option String} {table name : String}
    (mem : .column home table name ∈ n.elements) : .table home table ∈ n.elements := by
  rcases Namespace.mem_elements.mp mem with same | ⟨t, member, inside⟩
  · cases same
  · exact Namespace.mem_elements.mpr (.inr ⟨t, member, Table.table_mem_of_column inside⟩)

theorem Schema.table_mem_of_column {home : Option String} {table name : String}
    (mem : .column home table name ∈ s.elements) : .table home table ∈ s.elements := by
  cases s with
  | ofTable t => exact Table.table_mem_of_column mem
  | ofNamespace n => exact Namespace.table_mem_of_column mem
  | ofDatasource d =>
    rcases List.mem_cons.mp mem with same | later
    · cases same
    · obtain ⟨n, member, deep⟩ := List.mem_flatMap.mp later
      refine List.mem_cons_of_mem _ (List.mem_flatMap.mpr ⟨n, member, ?_⟩)
      exact Namespace.table_mem_of_column deep

theorem Schema.alone_of_mem {name : String} (mem : .table none name ∈ s.elements) :
    ∃ t, s = ofTable t ∧ t.name = name := by
  cases s with
  | ofTable t =>
    rcases Table.mem_elements.mp mem with same | ⟨c, _, same⟩
    · injection same with _ names
      exact ⟨t, rfl, names.symm⟩
    · cases same
  | ofNamespace n => cases Namespace.space?_of_mem mem
  | ofDatasource d =>
    rcases List.mem_cons.mp mem with same | later
    · cases same
    · obtain ⟨n, _, deep⟩ := List.mem_flatMap.mp later
      cases Namespace.space?_of_mem deep

theorem Schema.WellNamed.space (named : s.WellNamed) {n : Namespace} (mem : n ∈ s.spaces) :
    s.space? n.name = some n ∧ n.WellNamed := by
  cases s with
  | ofTable t => cases mem
  | ofNamespace n =>
    cases List.mem_singleton.mp mem
    exact ⟨by simp [space?, spaces], named⟩
  | ofDatasource d =>
    have named : d.WellNamed := named
    exact ⟨find?_named named.spaces.1 mem, named.each n mem⟩

theorem Table.WellNamed.column {t : Table} (named : t.WellNamed) {c : Column}
    (mem : c ∈ t.columns) : t.column? c.name = some c :=
  find?_named named.columns.1 mem

theorem Schema.holds_of_table {home : Option String} {t : Table}
    (found : s.table? home t.name = some t) (named : t.WellNamed) (mem : x ∈ t.elements home) :
    s.holds x = true := by
  rcases Table.mem_elements.mp mem with rfl | ⟨c, member, rfl⟩
  · rw [holds, found, Option.isSome_some]
  · rw [holds, column?, found, Option.bind_some, named.column member, Option.isSome_some]

theorem Schema.WellNamed.table (named : s.WellNamed) {n : Namespace} (mem : n ∈ s.spaces)
    {t : Table} (inside : t ∈ n.tables) : s.table? (some n.name) t.name = some t := by
  obtain ⟨found, wellNamed⟩ := named.space mem
  simp only [table?, tablesIn, found]
  exact find?_named wellNamed.tables.1 inside

/-- The elements of a schema are those that its look-ups by name find. -/
theorem Schema.WellNamed.holds (named : s.WellNamed) (mem : x ∈ s.elements) :
    s.holds x = true := by
  cases inside : x.space? with
  | some home =>
    obtain ⟨n, member, rfl, deep⟩ := mem_spaces_of_mem mem inside
    obtain ⟨found, wellNamed⟩ := named.space member
    rcases Namespace.mem_elements.mp deep with rfl | ⟨t, here, deeper⟩
    · rw [Schema.holds, found, Option.isSome_some]
    · exact holds_of_table (named.table member here) (wellNamed.each t here) deeper
  | none =>
    cases s with
    | ofTable t =>
      have found : (ofTable t).table? none t.name = some t := by simp [table?, tablesIn]
      exact holds_of_table found named mem
    | ofNamespace n =>
      rw [Namespace.space?_of_mem mem] at inside
      cases inside
    | ofDatasource d =>
      rcases List.mem_cons.mp mem with rfl | later
      · rfl
      · obtain ⟨n, _, deep⟩ := List.mem_flatMap.mp later
        rw [Namespace.space?_of_mem deep] at inside
        cases inside

end

end SqlFragment
