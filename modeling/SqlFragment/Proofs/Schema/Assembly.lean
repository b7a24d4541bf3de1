import Mathlib.Data.List.Forall2
import SqlFragment.Proofs.Schema.Elements
import SqlFragment.Proofs.Schema.Hierarchy

/-
What is made from a declared datasource. Every declared element is there, in its place and with what
was said of it, and no table is lost among the tables by path. Main statement: exactly the
well-formed declarations are accepted, and nothing of them is lost.
-/
namespace SqlFragment

def TableDeclaration.InKey (t : TableDeclaration) (column : String) : Prop :=
  ∃ c ∈ t.constraints, c.kind = .primaryKey ∧ column ∈ c.columns

/-- The column `c` is the one that `declared` describes in the table `t`. -/
structure Column.Realizes (t : TableDeclaration) (declared : ColumnDeclaration) (c : Column) :
    Prop where
  name : c.name = declared.name
  type : c.type = declared.type
  autoIncrement : c.autoIncrement = declared.autoIncrement
  default : c.default = declared.default
  nullable : c.nullable = true ↔
    declared.nullable = some true ∨ declared.nullable = none ∧ ¬t.InKey declared.name

structure Table.Realizes (declared : TableDeclaration) (t : Table) : Prop where
  name : t.name = declared.name
  isView : t.isView = declared.isView
  columns : List.Forall₂ (Column.Realizes declared) declared.columns t.columns
  constraints : t.constraints = declared.constraints

structure Namespace.Realizes (declared : NamespaceDeclaration) (n : Namespace) : Prop where
  name : n.name = declared.name
  tables : List.Forall₂ Table.Realizes declared.tables n.tables

structure Datasource.Realizes (declared : DatasourceDeclaration) (d : Datasource) : Prop where
  name : d.name = declared.name
  spaces : List.Forall₂ Namespace.Realizes declared.spaces d.spaces

theorem forall₂_map {α β : Type} {R : α → β → Prop} {f : α → β} {xs : List α}
    (each : ∀ x ∈ xs, R x (f x)) : List.Forall₂ R xs (xs.map f) :=
  List.forall₂_map_right_iff.mpr (List.forall₂_same.mpr each)

theorem TableDeclaration.mem_keyColumns {t : TableDeclaration} {column : String} :
    column ∈ t.keyColumns ↔ t.InKey column := by
  simp [keyColumns, InKey, Constraint.isPrimaryKey, and_assoc]

theorem TableDeclaration.realizes_build (t : TableDeclaration) : t.build.Realizes t := by
  refine ⟨rfl, rfl, forall₂_map fun c _ => ⟨rfl, rfl, rfl, rfl, ?_⟩, rfl⟩
  rw [← mem_keyColumns]
  cases said : c.nullable with
  | none => simp
  | some nullable => simp

theorem NamespaceDeclaration.realizes_build (n : NamespaceDeclaration) : n.build.Realizes n :=
  ⟨rfl, forall₂_map fun t _ => t.realizes_build⟩

namespace DatasourceDeclaration

def tablePaths (d : DatasourceDeclaration) : List Path :=
  d.spaces.flatMap fun n => n.tables.map fun t => [n.name, t.name]

theorem realizes_build (d : DatasourceDeclaration) : d.build.Realizes d :=
  ⟨rfl, forall₂_map fun n _ => n.realizes_build⟩

theorem keys_build (d : DatasourceDeclaration) :
    d.build.keyedTables.map Prod.fst = d.tablePaths := by
  simp [tablePaths, Datasource.keyedTables, Datasource.keyed, build, NamespaceDeclaration.build,
    TableDeclaration.build, List.flatMap_map, List.map_flatMap, Function.comp_def]

/-- A declared datasource is accepted if and only if it is well formed. What is made of it then holds
the declared elements in their order, no two columns have the same path, and the tables by path are
the declared ones, each once. -/
theorem accepted_iff_wellFormed (d : DatasourceDeclaration) :
    ((∃ s, (Declaration.datasource d).build = .ok s) ↔ d.WellFormed) ∧
    ∀ s, (Declaration.datasource d).build = .ok s →
      ∃ source : Datasource, s = .ofDatasource source ∧ source.Realizes d ∧
        source.columnPaths.Nodup ∧
        source.tables.entries.Perm source.keyedTables ∧
        source.keyedTables.map Prod.fst = d.tablePaths ∧ d.tablePaths.Nodup := by
  refine ⟨⟨?_, ?_⟩, ?_⟩
  · rintro ⟨s, built⟩
    exact check_eq_ok.mp (eq_build_of_built built).1
  · intro formed
    exact ⟨_, built_of_check (check_eq_ok.mpr formed)⟩
  · intro s built
    obtain ⟨passed, rfl⟩ := eq_build_of_built built
    have named := wellNamed passed
    have keys : (d.build.keyedTables.map Prod.fst).Nodup := named.nodup_keys _
    refine ⟨d.build, rfl, d.realizes_build, named.nodup_columnPaths, ?_, d.keys_build, ?_⟩
    · exact Hierarchy.ofList_perm keys
    · rwa [keys_build] at keys

/-- Two namespaces with a table of the same name; one refers to the other. -/
def branches : DatasourceDeclaration :=
  { name := "main"
    spaces :=
      [⟨"north",
          [{ name := "orders"
             columns := [{ name := "id" }, { name := "note" }]
             constraints := [⟨"PRIMARY", ["id"], .primaryKey⟩] }]⟩,
        ⟨"south",
          [{ name := "orders"
             columns := [{ name := "id", nullable := some true }, { name := "origin" }]
             constraints :=
               [⟨"PRIMARY", ["id"], .primaryKey⟩,
                 ⟨"origin", ["origin"], .foreignKey ["north", "orders"] ["id"]⟩] }]⟩] }

theorem accepted_branches :
    branches.WellFormed ∧
    ∃ source : Datasource, (Declaration.datasource branches).build = .ok (.ofDatasource source) ∧
      source.Realizes branches ∧ source.columnPaths.Nodup ∧
      source.tables.entries.Perm source.keyedTables ∧
      source.keyedTables.map Prod.fst = [["north", "orders"], ["south", "orders"]] := by
  have built : (Declaration.datasource branches).build = .ok (.ofDatasource branches.build) := rfl
  obtain ⟨accepted, made⟩ := accepted_iff_wellFormed branches
  obtain ⟨source, same, realizes, columns, tables, paths, _⟩ := made _ built
  exact ⟨accepted.mp ⟨_, built⟩, source, built.trans (congrArg _ same), realizes, columns, tables,
    paths⟩

end DatasourceDeclaration
end SqlFragment
