import SqlFragment.Proofs.Resolver.Qualified
import SqlFragment.Proofs.Schema.Hierarchy

/-
Foreign keys of declared datasources. The table that a foreign key refers to is checked through the
ends of paths, first within the namespace of the constraint, and looked up later on from the pivot.
Both find the same table for a name alone and for a name with a namespace that holds no dot. The
empty path passes the check where it singles out a table, but nothing is ever looked up by it; and a
namespace with a dot in its name is looked up as a path of its own.
-/
namespace SqlFragment

/-- A reference by the name of a table alone, or with a namespace that holds no dot. -/
def Path.Direct : Path → Prop
  | [_] => True
  | [space, _] => '.' ∉ space.toList
  | _ => False

namespace DatasourceDeclaration

def Declares (d : DatasourceDeclaration) (home : String) (t : TableDeclaration) : Prop :=
  ∃ n ∈ d.spaces, n.name = home ∧ t ∈ n.tables

/-- A reference through a namespace whose name is made of those of the datasource and of another
namespace, where the other one has such a table as well. -/
def Homonym (d : DatasourceDeclaration) (path : Path) (columns : List String) : Prop :=
  ∃ space other t, path = [space, t.name] ∧ Path.parse space = [d.name, other] ∧
    d.Declares other t ∧ ∀ column ∈ columns, t.hasColumn column = true

structure Singles (d : DatasourceDeclaration) (path : Path) (home : String)
    (t : TableDeclaration) : Prop where
  declared : d.Declares home t
  ends : path <:+ [home, t.name]
  only : path = [home, t.name] ∨ ∀ home' t', d.Declares home' t' → path <:+ [home', t'.name] →
    home' = home ∧ t'.name = t.name

section
variable {d : DatasourceDeclaration} {α : Type} {f : String → TableDeclaration → α}
  {space home name : String} {t : TableDeclaration} {path : Path}

theorem mem_keyed {entry : Path × α} :
    entry ∈ d.keyed f ↔ ∃ home t, d.Declares home t ∧ ([home, t.name], f home t) = entry := by
  simp only [keyed, List.mem_flatMap, List.mem_map, Declares]
  constructor
  · rintro ⟨n, mem, t, inside, rfl⟩
    exact ⟨n.name, t, ⟨n, mem, rfl, inside⟩, rfl⟩
  · rintro ⟨_, t, ⟨n, mem, rfl, inside⟩, rfl⟩
    exact ⟨n, mem, t, inside, rfl⟩

theorem keyed_build (f : String → Table → α) :
    d.build.keyed f = d.keyed fun home t => f home t.build := by
  simp [keyed, Datasource.keyed, build, NamespaceDeclaration.build, TableDeclaration.build,
    List.flatMap_map, Function.comp_def]

/-- The paths of the tables do not depend on the values, so no two of them are the same. -/
theorem nodup_keys (named : d.build.WellNamed) : ((d.keyed f).map Prod.fst).Nodup := by
  have keys : (d.keyed f).map Prod.fst = (d.build.keyed fun _ _ => ()).map Prod.fst := by
    simp [keyed_build, keyed, List.map_flatMap, Function.comp_def]
  rw [keys]
  exact named.nodup_keys _

/-- Whatever the values are, the table that is found is told by the names alone. -/
theorem get?_keyed (named : d.build.WellNamed) {a : α} :
    (Hierarchy.ofList (d.keyed f)).get? path = some a ↔
      ∃ home t, d.Singles path home t ∧ f home t = a := by
  have distinct := nodup_keys named (f := f)
  rw [Hierarchy.get?_ofList distinct]
  constructor
  · rintro ⟨key, mem, ends, only⟩
    obtain ⟨home, t, declared, same⟩ := mem_keyed.mp mem
    cases same
    refine ⟨home, t, ⟨declared, ends, ?_⟩, rfl⟩
    rcases only with same | only
    · exact .inl same.symm
    · refine .inr fun home' t' declared' ends' => ?_
      have same := only _ (mem_keyed.mpr ⟨home', t', declared', rfl⟩) ends'
      simp only [Prod.mk.injEq, List.cons.injEq, and_true] at same
      exact same.1
  · rintro ⟨home, t, ⟨declared, ends, only⟩, rfl⟩
    have mem := mem_keyed (f := f).mpr ⟨home, t, declared, rfl⟩
    refine ⟨_, mem, ends, ?_⟩
    rcases only with same | only
    · exact .inl same.symm
    · refine .inr fun other held ends' => List.inj_on_of_nodup_map distinct held mem ?_
      obtain ⟨home', t', declared', rfl⟩ := mem_keyed.mp held
      obtain ⟨homes, names⟩ := only home' t' declared' ends'
      simp only [homes, names]

theorem singles_pair : d.Singles [space, name] home t ↔
    d.Declares home t ∧ home = space ∧ t.name = name := by
  constructor
  · rintro ⟨declared, ends, _⟩
    have same := ends.eq_of_length rfl
    simp only [List.cons.injEq, and_true] at same
    exact ⟨declared, same.1.symm, same.2.symm⟩
  · rintro ⟨declared, rfl, rfl⟩
    exact ⟨declared, List.suffix_refl _, .inl rfl⟩

theorem Singles.length_le (single : d.Singles path home t) : path.length ≤ 2 :=
  single.ends.length_le

theorem referenced?_eq_some (named : d.build.WellNamed) :
    d.referenced? space path = some t ↔
      (∃ home, d.Singles (space :: path) home t) ∨
      (∀ home t', ¬d.Singles (space :: path) home t') ∧ ∃ home, d.Singles path home t := by
  have found (path : Path) (t : TableDeclaration) :
      d.tables.get? path = some t ↔ ∃ home, d.Singles path home t := by
    refine (get?_keyed named (f := fun _ t => t)).trans ?_
    constructor
    · rintro ⟨home, _, single, rfl⟩
      exact ⟨home, single⟩
    · rintro ⟨home, single⟩
      exact ⟨home, t, single, rfl⟩
  have absent (path : Path) :
      d.tables.get? path = none ↔ ∀ home t, ¬d.Singles path home t := by
    rw [Option.eq_none_iff_forall_not_mem]
    simp only [Option.mem_def, found, not_exists]
    exact forall_comm
  rw [referenced?_iff_refers, Refers, found, found, absent]

theorem length_le_of_referenced? (named : d.build.WellNamed)
    (referenced : d.referenced? space path = some t) : path.length ≤ 2 := by
  rcases (referenced?_eq_some named).mp referenced with ⟨home, here⟩ | ⟨_, home, only⟩
  · exact Nat.le_of_succ_le here.length_le
  · exact only.length_le

theorem Declares.table? (named : d.build.WellNamed) (declared : d.Declares home t) :
    (Schema.ofDatasource d.build).table? (some home) t.name = some t.build := by
  obtain ⟨n, mem, rfl, inside⟩ := declared
  have wellNamed : (Schema.ofDatasource d.build).WellNamed := named
  exact wellNamed.table (n := n.build) (List.mem_map_of_mem mem) (List.mem_map_of_mem inside)

theorem declares_of_table? {table : Table}
    (found : (Schema.ofDatasource d.build).table? (some home) name = some table) :
    ∃ t, d.Declares home t ∧ t.name = name ∧ t.build = table := by
  have named := Schema.name_of_table? found
  simp only [Schema.table?, Schema.tablesIn] at found
  split at found
  · rename_i space held
    have member := List.mem_of_find?_eq_some held
    obtain ⟨n, mem, rfl⟩ := List.mem_map.mp member
    obtain ⟨t, inside, rfl⟩ := List.mem_map.mp (List.mem_of_find?_eq_some found)
    exact ⟨t, ⟨n, mem, Schema.name_of_space? held, inside⟩, named, rfl⟩
  · cases found

theorem Declares.mem_elements (declared : d.Declares home t) :
    .table (some home) t.name ∈ (Schema.ofDatasource d.build).elements := by
  obtain ⟨n, mem, rfl, inside⟩ := declared
  refine Schema.mem_elements_of_space (List.mem_map_of_mem mem : n.build ∈ d.build.spaces) ?_
  exact Namespace.mem_elements.mpr
    (.inr ⟨t.build, List.mem_map_of_mem inside, List.mem_cons_self⟩)

theorem isSome_column? (named : d.build.WellNamed) (declared : d.Declares home t)
    (column : String) :
    ((Schema.ofDatasource d.build).column? (some home) t.name column).isSome =
      t.hasColumn column := by
  rw [Schema.column?, declared.table? named, Option.bind_some, Table.column?, List.isSome_find?]
  simp [TableDeclaration.build, TableDeclaration.hasColumn, Function.comp_def]

/-- Every foreign key of an accepted datasource refers to a declared table with the columns. -/
theorem referenced_of_check (passed : d.check = .ok ()) {n : NamespaceDeclaration}
    (mem : n ∈ d.spaces) (inside : t ∈ n.tables) {c : Constraint} (held : c ∈ t.constraints)
    {columns : List String} (foreign : c.kind = .foreignKey path columns) :
    ∃ target, d.referenced? n.name path = some target ∧
      ∀ column ∈ columns, target.hasColumn column = true := by
  obtain ⟨target, refers, complete⟩ :=
    (check_eq_ok.mp passed).references n mem t inside c held path columns foreign
  refine ⟨target, referenced?_iff_refers.mpr refers, ?_⟩
  simpa [TableDeclaration.hasColumn] using complete

end

end DatasourceDeclaration

namespace Resolver
open DatasourceDeclaration

section
variable {d : DatasourceDeclaration} {space home name : String} {own t : TableDeclaration}

theorem get?_anywhere (named : d.build.WellNamed) (single : d.Singles [name] home t) :
    (Hierarchy.ofList d.build.keyedElements).get? [name] = some (.table (some home) t.name) := by
  rw [Datasource.keyedElements, keyed_build]
  exact (get?_keyed named).mpr ⟨home, t, single, rfl⟩

theorem resolveTable?_datasource (name : String) :
    (new (.ofDatasource d.build) (.table (some space) own.name)).resolveTable? name =
      ((if own.name = name then some (.table (some space) own.name) else none) <|>
      (((Schema.ofDatasource d.build).table? (some space) name).map fun t =>
        .table (some space) t.name) <|>
      (Hierarchy.ofList d.build.keyedElements).get? [name]) := by
  have inHome : ((Schema.ofDatasource d.build).space? space).bind (fun n =>
      (n.table? name).map fun t => Element.table (some n.name) t.name) =
      ((Schema.ofDatasource d.build).table? (some space) name).map fun t =>
        .table (some space) t.name := by
    rw [Schema.table?, Schema.tablesIn]
    cases held : (Schema.ofDatasource d.build).space? space with
    | none => rfl
    | some n => rw [Option.bind_some, Schema.name_of_space? held, Namespace.table?]
  rw [← inHome]
  rfl

/-- From a table of a namespace a name leads to the table of the namespace, and else to the only
table of that name. -/
theorem resolveTable?_declared (named : d.build.WellNamed) (start : d.Declares space own)
    (found : d.Singles [space, name] home t ∨
      (∀ home t', ¬d.Singles [space, name] home t') ∧ d.Singles [name] home t) :
    (new (.ofDatasource d.build) (.table (some space) own.name)).resolveTable? name =
      some (.table (some home) t.name) := by
  rw [resolveTable?_datasource]
  -- the pivot itself is one of the tables of the namespace, so it needs no case of its own
  rcases found with here | ⟨elsewhere, only⟩
  · obtain ⟨declared, rfl, rfl⟩ := singles_pair.mp here
    rw [declared.table? named]
    by_cases itself : own.name = t.name
    · simp [itself]
    · simp [itself, TableDeclaration.build]
  · have other : own.name ≠ name := fun same =>
      elsewhere space own (singles_pair.mpr ⟨start, rfl, same⟩)
    have absent : (Schema.ofDatasource d.build).table? (some space) name = none := by
      cases held : (Schema.ofDatasource d.build).table? (some space) name with
      | none => rfl
      | some table =>
        obtain ⟨t', declared, same, _⟩ := declares_of_table? held
        exact absurd (singles_pair.mpr ⟨declared, rfl, same⟩) (elsewhere space t')
    rw [get?_anywhere named only, absent, if_neg other]
    rfl

theorem find_name (named : d.build.WellNamed) (start : d.Declares space own)
    (referenced : d.referenced? space [name] = some t) :
    ∃ home, d.Declares home t ∧
      ((new (.ofDatasource d.build) (.table (some space) own.name)).find .table [name]).1 =
        .ok (.table (some home) t.name) := by
  have found : ∃ home, d.Singles [space, name] home t ∨
      (∀ home t', ¬d.Singles [space, name] home t') ∧ d.Singles [name] home t := by
    rcases (referenced?_eq_some named).mp referenced with ⟨home, here⟩ | ⟨elsewhere, home, only⟩
    · exact ⟨home, .inl here⟩
    · exact ⟨home, .inr ⟨elsewhere, only⟩⟩
  obtain ⟨home, found⟩ := found
  have declared : d.Declares home t := by
    rcases found with here | ⟨_, only⟩
    · exact here.declared
    · exact only.declared
  refine ⟨home, declared, ?_⟩
  rw [find_new]
  exact answer_eq_ok.mpr (resolveTable?_declared named start found)

/-- A segment leads to a namespace of this name, if it holds no dot, or else to that of its part
after the name of the datasource. -/
theorem find_space_segment (named : d.build.WellNamed) {pivot : Element}
    (start : pivot ∈ (Schema.ofDatasource d.build).elements)
    (mem : .space home ∈ (Schema.ofDatasource d.build).elements) :
    ((new (.ofDatasource d.build) pivot).find .space (Path.parse space)).1 = .ok (.space home) ↔
      ('.' ∉ space.toList ∧ home = space) ∨ Path.parse space = [d.name, home] := by
  constructor
  · rw [findSpace_new]
    intro found
    obtain ⟨_, member, ⟨rfl⟩⟩ := mem_of_resolveSpace? found
    match parsed : Path.parse space with
    | [] | _ :: _ :: _ :: _ =>
      rw [parsed] at found
      cases found
    | [only] =>
      rw [parsed, List.mem_singleton] at member
      have same := Path.eq_of_parse parsed
      refine .inl ⟨Path.plain_parse space space ?_, member.trans same⟩
      rw [parsed, same]
      exact List.mem_cons_self
    | [source, name] =>
      rw [parsed] at found
      obtain ⟨n, held, same⟩ := Option.map_eq_some_iff.mp found
      obtain ⟨_, source', inside⟩ := Option.bind_eq_some_iff.mp held
      obtain ⟨⟨rfl⟩, names⟩ := Option.filter_eq_some_iff.mp source'
      cases same
      rw [Datasource.name_of_space? inside, ← of_decide_eq_true names]
      exact .inr rfl
  · have wellNamed : (Schema.ofDatasource d.build).WellNamed := named
    rintro (⟨plain, rfl⟩ | parsed)
    · exact find_parse wellNamed start mem plain
    · obtain ⟨n, found⟩ := Option.isSome_iff_exists.mp (wellNamed.holds mem)
      have inside : d.build.space? home = some n := found
      have resolved : (new (.ofDatasource d.build) pivot).resolveSpace? [d.name, home] =
          (((some d.build).filter fun source : Datasource => source.name = d.name).bind
            fun source => source.space? home).map fun n => .space n.name := rfl
      rw [findSpace_new, parsed, resolved, Option.filter_some, if_pos (by simp [build]),
        Option.bind_some, inside, Option.map_some, Schema.name_of_space? found]

theorem find_pair (named : d.build.WellNamed) {pivot e : Element}
    (start : pivot ∈ (Schema.ofDatasource d.build).elements) :
    ((new (.ofDatasource d.build) pivot).find .table [space, name]).1 = .ok e ↔
      ∃ other t, (('.' ∉ space.toList ∧ other = space) ∨ Path.parse space = [d.name, other]) ∧
        d.Declares other t ∧ t.name = name ∧ e = .table (some other) t.name := by
  rw [find_new]
  refine tableAnswer_eq_ok.trans ?_
  constructor
  · rintro ⟨other, table, found, held, rfl⟩
    obtain ⟨t, declared, rfl, rfl⟩ := declares_of_table? held
    have mem := Schema.space_mem_of_mem declared.mem_elements rfl
    exact ⟨other, t, (find_space_segment named start mem).mp found, declared, rfl, rfl⟩
  · rintro ⟨other, t, leads, declared, rfl, rfl⟩
    have mem := Schema.space_mem_of_mem declared.mem_elements rfl
    have found := (find_space_segment named start mem).mpr leads
    exact ⟨other, t.build, found, declared.table? named, rfl⟩

theorem find_direct (named : d.build.WellNamed) (start : d.Declares space own) {path : Path}
    (direct : path.Direct) (referenced : d.referenced? space path = some t) :
    ∃ home, d.Declares home t ∧
      ((new (.ofDatasource d.build) (.table (some space) own.name)).find .table path).1 =
        .ok (.table (some home) t.name) := by
  match path with
  | [] | _ :: _ :: _ :: _ => cases direct
  | [name] => exact find_name named start referenced
  | [home, name] =>
    rcases (referenced?_eq_some named).mp referenced with ⟨_, here⟩ | ⟨_, other, only⟩
    · exact absurd here.length_le (by simp)
    · obtain ⟨declared, rfl, rfl⟩ := singles_pair.mp only
      exact ⟨other, declared, (find_pair named start.mem_elements).mpr
        ⟨other, t, .inl ⟨direct, rfl⟩, declared, rfl, rfl⟩⟩

theorem direct_or_homonym (named : d.build.WellNamed) {pivot : Element}
    (start : pivot ∈ (Schema.ofDatasource d.build).elements) {path : Path}
    (short : path.length ≤ 2) {home : Option String} {host : String}
    (found : ((new (.ofDatasource d.build) pivot).find .table path).1 = .ok (.table home host))
    {columns : List String} (has : ∀ column ∈ columns,
      ((Schema.ofDatasource d.build).column? home host column).isSome = true) :
    path.Direct ∨ d.Homonym path columns := by
  match path with
  | [] =>
    rw [find_new] at found
    cases found
  | [name] => exact .inl trivial
  | [space, name] =>
    obtain ⟨other, t, leads, declared, rfl, ⟨rfl⟩⟩ := (find_pair named start).mp found
    rcases leads with ⟨plain, _⟩ | parsed
    · exact .inl plain
    · refine .inr ⟨space, other, t, rfl, parsed, declared, fun column mem => ?_⟩
      rw [← isSome_column? named declared]
      exact has column mem
  | _ :: _ :: _ :: _ => simp at short

end

/-- From the table of a foreign key of an accepted datasource the path that it refers to leads to a
table with the columns exactly if it is direct or a homonym; the table that a direct path leads to
is the one that was checked. No other path passes the check than the empty one and those of one or
two names. -/
theorem foreign_keys_found_iff (d : DatasourceDeclaration) (s : Schema)
    (built : (Declaration.datasource d).build = .ok s) :
    ∀ n ∈ d.spaces, ∀ t ∈ n.tables, ∀ c ∈ t.constraints, ∀ path columns,
      c.kind = .foreignKey path columns →
      let found := ((new s (.table (some n.name) t.name)).find .table path).1
      ((∃ home host, found = .ok (.table home host) ∧
          ∀ column ∈ columns, (s.column? home host column).isSome = true) ↔
        path.Direct ∨ d.Homonym path columns) ∧
      (path.Direct → ∃ home target, d.Declares home target ∧
        d.referenced? n.name path = some target ∧
        found = .ok (.table (some home) target.name)) ∧
      path.length ≤ 2 := by
  obtain ⟨passed, rfl⟩ := eq_build_of_built built
  have named := DatasourceDeclaration.wellNamed passed
  intro n mem t inside c held path columns foreign found
  have start : d.Declares n.name t := ⟨n, mem, rfl, inside⟩
  obtain ⟨target, referenced, complete⟩ := referenced_of_check passed mem inside held foreign
  have direct (plain : path.Direct) := find_direct named start plain referenced
  have short := length_le_of_referenced? named referenced
  refine ⟨⟨?_, ?_⟩, ?_, short⟩
  · rintro ⟨home, host, same, has⟩
    exact direct_or_homonym named start.mem_elements short same has
  · rintro (plain | ⟨space, other, t', rfl, parsed, declared, has⟩)
    · obtain ⟨home, declared, same⟩ := direct plain
      refine ⟨some home, target.name, same, fun column mem => ?_⟩
      rw [isSome_column? named declared]
      exact complete column mem
    · refine ⟨some other, t'.name, (find_pair named start.mem_elements).mpr
        ⟨other, t', .inr parsed, declared, rfl, rfl⟩, fun column mem => ?_⟩
      rw [isSome_column? named declared]
      exact has column mem
  · intro plain
    obtain ⟨home, declared, same⟩ := direct plain
    exact ⟨home, target, declared, referenced, same⟩

/-- Two namespaces whose tables refer to each other, one with the namespace and one by the name of
the table alone. -/
def company : DatasourceDeclaration :=
  { name := "main"
    spaces :=
      [⟨"shop",
          [{ name := "orders"
             columns := [{ name := "id" }, { name := "clerk" }]
             constraints := [⟨"clerk", ["clerk"], .foreignKey ["hr", "staff"] ["id"]⟩] }]⟩,
        ⟨"hr",
          [{ name := "staff"
             columns := [{ name := "id" }, { name := "sold" }]
             constraints :=
               [⟨"sold", ["id", "sold"], .foreignKey ["orders"] ["clerk", "id"]⟩] }]⟩] }

theorem foreign_keys_found_in_company :
    ∃ s, (Declaration.datasource company).build = .ok s ∧
      (∃ home host,
        ((new s (.table (some "shop") "orders")).find .table ["hr", "staff"]).1 =
          .ok (.table home host) ∧
        ∀ column ∈ ["id"], (s.column? home host column).isSome = true) ∧
      ∃ home host,
        ((new s (.table (some "hr") "staff")).find .table ["orders"]).1 = .ok (.table home host) ∧
        ∀ column ∈ ["clerk", "id"], (s.column? home host column).isSome = true := by
  have built : (Declaration.datasource company).build = .ok (.ofDatasource company.build) := rfl
  have keys := foreign_keys_found_iff company _ built
  refine ⟨_, built, ?_, ?_⟩
  · exact (keys _ List.mem_cons_self _ List.mem_cons_self _ List.mem_cons_self _ _ rfl).1.mpr
      (.inl (show '.' ∉ "hr".toList by decide))
  · exact (keys _ (List.mem_cons_of_mem _ List.mem_cons_self) _ List.mem_cons_self _
      List.mem_cons_self _ _ rfl).1.mpr (.inl trivial)

def rootless : DatasourceDeclaration :=
  { name := "main"
    spaces :=
      [⟨"shop",
          [{ name := "orders"
             columns := [{ name := "id" }, { name := "parent" }]
             constraints := [⟨"parent", ["parent"], .foreignKey [] ["id"]⟩] }]⟩] }

def dotted : DatasourceDeclaration :=
  { name := "main"
    spaces :=
      [⟨"a.b", [{ name := "t", columns := [{ name := "id" }] }]⟩,
        ⟨"c",
          [{ name := "u"
             columns := [{ name := "origin" }]
             constraints := [⟨"origin", ["origin"], .foreignKey ["a.b", "t"] ["id"]⟩] }]⟩] }

/-- Both are accepted, and neither foreign key leads to a table. -/
theorem accepted_foreign_keys_not_found :
    (Declaration.datasource rootless).build = .ok (.ofDatasource rootless.build) ∧
    ((new (.ofDatasource rootless.build) (.table (some "shop") "orders")).find .table []).1 =
      .error ⟨[], .table, .notFound⟩ ∧
    (Declaration.datasource dotted).build = .ok (.ofDatasource dotted.build) ∧
    ((new (.ofDatasource dotted.build) (.table (some "c") "u")).find .table ["a.b", "t"]).1 =
      .error ⟨["a", "b"], .space, .notFound⟩ :=
  ⟨rfl, rfl, rfl, rfl⟩

end Resolver
end SqlFragment
