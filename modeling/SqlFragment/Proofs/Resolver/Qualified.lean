import SqlFragment.Proofs.Resolver.Transparency
import SqlFragment.Proofs.Schema.Elements

/-
Looking up an element by its own qualified path. Namespaces are always found. What lies in a
namespace is found exactly when the name of the namespace holds no dot, because the segment before a
table is split at its dots once more. A table that stands alone is found from itself only, not from
its columns, and its columns are found if besides its name holds no dot.
-/
namespace SqlFragment

/-- When the look-up of the qualified path of `x` from `pivot` gives `x`. -/
def Element.Reaches (pivot x : Element) : Prop :=
  match x with
  | .datasource => False
  | .space _ => True
  | .table (some home) _ => '.' ∉ home.toList
  | .column (some home) _ _ => '.' ∉ home.toList
  | .table none host => pivot = .table none host
  | .column none host _ => pivot = .table none host ∧ '.' ∉ host.toList

theorem Schema.name_of_space? {s : Schema} {name : String} {n : Namespace}
    (found : s.space? name = some n) : n.name = name := by
  simpa using List.find?_some found

theorem Datasource.name_of_space? {d : Datasource} {name : String} {n : Namespace}
    (found : d.space? name = some n) : n.name = name := by
  simpa using List.find?_some found

theorem Schema.name_of_table? {s : Schema} {home : Option String} {name : String} {t : Table}
    (found : s.table? home name = some t) : t.name = name := by
  simpa using List.find?_some found

theorem Schema.name_of_column? {s : Schema} {home : Option String} {table name : String}
    {c : Column} (found : s.column? home table name = some c) : c.name = name := by
  obtain ⟨t, _, held⟩ := Option.bind_eq_some_iff.mp found
  simpa using List.find?_some held

namespace Resolver
variable {s : Schema} {pivot x : Element}

theorem answer_eq_ok {kind : ElementKind} {path : Path} {found : Option Element} {e : Element} :
    answer kind path found = .ok e ↔ found = some e := by
  cases found <;> simp [answer]

theorem find_new (kind : ElementKind) (path : Path) : ((new s pivot).find kind path).1 =
    match (new s pivot).search kind path with
    | .answered result => result
    | .within outerKind outerPath next => next ((new s pivot).find outerKind outerPath).1 :=
  (new s pivot).find_uncached_answer kind path

/-- Without aliases a namespace is looked for in the datasource, then it may be that of the pivot. -/
theorem resolveSpace?_new (name : String) : (new s pivot).resolveSpace? [name] =
    match s.datasource?.bind fun d => d.space? name with
    | some n => some (.space n.name)
    | none => ((new s pivot).home?.filter fun n => n.name = name).map fun n => .space n.name :=
  rfl

theorem findSpace_new {path : Path} {e : Element} :
    ((new s pivot).find .space path).1 = .ok e ↔ (new s pivot).resolveSpace? path = some e := by
  rw [find_new]
  exact answer_eq_ok

theorem mem_of_resolveSpace? {path : Path} {e : Element}
    (found : (new s pivot).resolveSpace? path = some e) : ∃ name ∈ path, e = .space name := by
  match path with
  | [] | _ :: _ :: _ :: _ => cases found
  | [name] =>
    rw [resolveSpace?_new] at found
    refine ⟨name, List.mem_cons_self, ?_⟩
    split at found
    · rename_i n inSource
      obtain ⟨d, _, inside⟩ := Option.bind_eq_some_iff.mp inSource
      rw [← Datasource.name_of_space? inside]
      exact (Option.some.inj found).symm
    · obtain ⟨n, here, rfl⟩ := Option.map_eq_some_iff.mp found
      have same : n.name = name := by simpa using (Option.filter_eq_some_iff.mp here).2
      rw [same]
  | [source, name] =>
    refine ⟨name, by simp, ?_⟩
    obtain ⟨n, here, rfl⟩ := Option.map_eq_some_iff.mp found
    obtain ⟨d, _, inside⟩ := Option.bind_eq_some_iff.mp here
    rw [Datasource.name_of_space? inside]

theorem resolveSpace?_name (named : s.WellNamed) (start : pivot ∈ s.elements) {name : String}
    (mem : .space name ∈ s.elements) :
    (new s pivot).resolveSpace? [name] = some (.space name) := by
  obtain ⟨n, found⟩ := Option.isSome_iff_exists.mp (named.holds mem)
  obtain rfl := Schema.name_of_space? found
  cases s with
  | ofTable t => cases found
  | ofNamespace only =>
    have home : (new (.ofNamespace only) pivot).home? = some only := by
      have inside : pivot.space? = some only.name := Namespace.space?_of_mem start
      simp [home?, Resolver.pivot, new, inside, Schema.space?, Schema.spaces]
    obtain ⟨_, rfl⟩ : only.name = n.name ∧ only = n := by
      simpa [Schema.space?, Schema.spaces] using found
    rw [resolveSpace?_new, home]
    simp [Schema.datasource?, Option.filter]
  | ofDatasource d =>
    have inside : d.space? n.name = some n := found
    rw [resolveSpace?_new]
    simp only [Schema.datasource?, Option.bind_some, inside]

theorem tableAnswer_eq_ok {r : Resolver} {path : Path} {name : String}
    {outer : Except ResolutionError Element} {e : Element} :
    r.tableAnswer path name outer = .ok e ↔ ∃ home t, outer = .ok (.space home) ∧
      r.schema.table? (some home) name = some t ∧ e = .table (some home) t.name := by
  cases outer with
  | error error => simp [tableAnswer]
  | ok space =>
    rw [tableAnswer, answer_eq_ok]
    cases space with
    | space home =>
      rw [tableOf?, Option.map_eq_some_iff]
      constructor
      · rintro ⟨t, found, rfl⟩
        exact ⟨home, t, rfl, found, rfl⟩
      · rintro ⟨_, t, same, found, rfl⟩
        cases same
        exact ⟨t, found, rfl⟩
    | _ => simp [tableOf?]

theorem columnAnswer_eq_ok {r : Resolver} {path : Path} {name : String}
    {outer : Except ResolutionError Element} {e : Element} :
    r.columnAnswer path name outer = .ok e ↔ ∃ home t c, outer = .ok (.table home t) ∧
      r.schema.column? home t name = some c ∧ e = .column home t c.name := by
  cases outer with
  | error error => simp [columnAnswer, answer]
  | ok table =>
    rw [columnAnswer, answer_eq_ok]
    cases table with
    | table home t =>
      rw [columnOf?, Option.map_eq_some_iff]
      constructor
      · rintro ⟨c, found, rfl⟩
        exact ⟨home, t, c, rfl, found, rfl⟩
      · rintro ⟨_, _, c, same, found, rfl⟩
        cases same
        exact ⟨c, found, rfl⟩
    | _ => simp [columnOf?]

theorem plain_of_find_parse {home : String}
    (found : ((new s pivot).find .space (Path.parse home)).1 = .ok (.space home)) :
    '.' ∉ home.toList := by
  obtain ⟨name, mem, same⟩ := mem_of_resolveSpace? (findSpace_new.mp found)
  cases same
  exact Path.plain_parse home home mem

theorem find_parse (named : s.WellNamed) (start : pivot ∈ s.elements) {home : String}
    (mem : .space home ∈ s.elements) (plain : '.' ∉ home.toList) :
    ((new s pivot).find .space (Path.parse home)).1 = .ok (.space home) := by
  have visible : home.isEmpty = false := by
    obtain ⟨n, member, rfl, _⟩ := Schema.mem_spaces_of_mem mem rfl
    simpa using (named.space member).2.name
  rw [findSpace_new, Path.parse_of_not_mem plain, visible]
  exact resolveSpace?_name named start mem

/-- A table of a namespace is found by its qualified path exactly when the name of the namespace
holds no dot. -/
theorem find_table_in_space (named : s.WellNamed) (start : pivot ∈ s.elements) {home name : String}
    (mem : .table (some home) name ∈ s.elements) :
    ((new s pivot).find .table [home, name]).1 = .ok (.table (some home) name) ↔
      '.' ∉ home.toList := by
  rw [find_new]
  refine tableAnswer_eq_ok.trans ?_
  constructor
  · rintro ⟨home', t, found, _, same⟩
    injection same with homes _
    cases homes
    exact plain_of_find_parse found
  · intro plain
    obtain ⟨t, held⟩ := Option.isSome_iff_exists.mp (named.holds mem)
    refine ⟨home, t, find_parse named start (Schema.space_mem_of_mem mem rfl) plain, held, ?_⟩
    rw [Schema.name_of_table? held]

/-- The same of a column of a table of a namespace; the name of the table may hold dots. -/
theorem find_column_in_space (named : s.WellNamed) (start : pivot ∈ s.elements)
    {home table name : String} (mem : .column (some home) table name ∈ s.elements) :
    ((new s pivot).find .column [home, table, name]).1 = .ok (.column (some home) table name) ↔
      '.' ∉ home.toList := by
  have host := find_table_in_space named start (Schema.table_mem_of_column mem)
  rw [find_new, ← host]
  refine columnAnswer_eq_ok.trans ?_
  constructor
  · rintro ⟨home', table', c, found, _, same⟩
    injection same with homes tables _
    cases homes
    cases tables
    exact found
  · intro found
    obtain ⟨c, held⟩ := Option.isSome_iff_exists.mp (named.holds mem)
    refine ⟨some home, table, c, found, held, ?_⟩
    rw [Schema.name_of_column? held]

section
variable {t : Table}

theorem home?_alone : (new (.ofTable t) pivot).home? = none := by
  simp [home?, new, Schema.space?, Schema.spaces]

theorem resolveSpace?_alone (path : Path) : (new (.ofTable t) pivot).resolveSpace? path = none := by
  match path with
  | [] | [_, _] | _ :: _ :: _ :: _ => rfl
  | [name] =>
    rw [resolveSpace?_new, home?_alone]
    rfl

theorem resolveTable?_pivot (name : String) : (new (.ofTable t) pivot).resolveTable? name =
    match pivot with
    | .table home own => if own = name then some (.table home own) else none
    | _ => none := by
  have searched : (new (.ofTable t) pivot).resolveTable? name =
      ((match pivot with
        | .table home own => if own = name then some (.table home own) else none
        | _ => none) <|>
      ((new (.ofTable t) pivot).home?.bind fun n =>
        (n.table? name).map fun t => Element.table (some n.name) t.name) <|> none) := rfl
  rw [searched, home?_alone]
  simp

theorem resolveTable?_alone (start : pivot ∈ (Schema.ofTable t).elements) (name : String) :
    (new (.ofTable t) pivot).resolveTable? name =
      if name = t.name ∧ pivot = .table none t.name then some pivot else none := by
  rw [resolveTable?_pivot]
  rcases Table.mem_elements.mp start with rfl | ⟨c, _, rfl⟩
  · simp [eq_comm]
  · simp

theorem find_table_alone (start : pivot ∈ (Schema.ofTable t).elements) {path : Path} {e : Element} :
    ((new (.ofTable t) pivot).find .table path).1 = .ok e ↔
      path = [t.name] ∧ pivot = .table none t.name ∧ e = pivot := by
  have spaces (path : Path) (e : Element) :
      ((new (.ofTable t) pivot).find .space path).1 ≠ .ok e := by
    rw [Ne, findSpace_new, resolveSpace?_alone]
    exact nofun
  have within (path : Path) (name : String) (outer : Path) :
      (new (.ofTable t) pivot).tableAnswer path name
        ((new (.ofTable t) pivot).find .space outer).1 ≠ .ok e := by
    rw [Ne, tableAnswer_eq_ok]
    rintro ⟨home, _, found, _⟩
    exact spaces outer _ found
  rw [find_new]
  match path with
  | [] | _ :: _ :: _ :: _ :: _ => simp [search, answer]
  | [name] =>
    refine answer_eq_ok.trans ?_
    rw [resolveTable?_alone start]
    simp [eq_comm, and_assoc]
  | [home, name] => simpa [search] using within [home, name] name _
  | [source, home, name] => simpa [search] using within [source, home, name] name _

theorem find_column_alone (named : t.WellNamed) (start : pivot ∈ (Schema.ofTable t).elements)
    {name : String} (mem : .column none t.name name ∈ (Schema.ofTable t).elements) :
    ((new (.ofTable t) pivot).find .column [t.name, name]).1 = .ok (.column none t.name name) ↔
      pivot = .table none t.name ∧ '.' ∉ t.name.toList := by
  rw [find_new]
  refine columnAnswer_eq_ok.trans ?_
  constructor
  · rintro ⟨home, table, c, found, _, same⟩
    obtain ⟨parsed, itself, _⟩ := (find_table_alone start).mp found
    refine ⟨itself, Path.plain_parse t.name t.name ?_⟩
    rw [parsed]
    exact List.mem_cons_self
  · rintro ⟨rfl, plain⟩
    have visible : t.name.isEmpty = false := by simpa using named.name
    have parsed : Path.parse t.name = [t.name] := by
      rw [Path.parse_of_not_mem plain, visible]
      rfl
    have wellNamed : (Schema.ofTable t).WellNamed := named
    obtain ⟨c, held⟩ := Option.isSome_iff_exists.mp (wellNamed.holds mem)
    refine ⟨none, t.name, c, (find_table_alone start).mpr ⟨parsed, rfl, rfl⟩, held, ?_⟩
    rw [Schema.name_of_column? held]

end

/-- In a declared schema no two elements are told by the same names, and an element is found by its
qualified path exactly from the elements that reach it. -/
theorem find_path_iff_reaches (d : Declaration) (s : Schema) (built : d.build = .ok s) :
    s.elements.Nodup ∧ ∀ pivot ∈ s.elements, ∀ x ∈ s.elements, x ≠ .datasource →
      (((new s pivot).find x.kind x.path).1 = .ok x ↔ pivot.Reaches x) := by
  have named := Declaration.wellNamed_build built
  refine ⟨named.nodup, ?_⟩
  intro pivot start x mem other
  match x with
  | .datasource => exact absurd rfl other
  | .space name =>
    exact iff_of_true (findSpace_new.mpr (resolveSpace?_name named start mem)) trivial
  | .table (some home) name => exact find_table_in_space named start mem
  | .column (some home) table name => exact find_column_in_space named start mem
  | .table none name =>
    obtain ⟨t, rfl, rfl⟩ := Schema.alone_of_mem mem
    refine (find_table_alone start).trans ?_
    exact ⟨fun ⟨_, itself, _⟩ => itself, fun itself => ⟨rfl, itself, itself.symm⟩⟩
  | .column none table name =>
    obtain ⟨t, rfl, rfl⟩ := Schema.alone_of_mem (Schema.table_mem_of_column mem)
    exact find_column_alone named start mem

/-- A column of one namespace found from a column of another; the name of its table holds a dot. -/
theorem find_path_across_spaces :
    let orders : TableDeclaration := { name := "orders", columns := [{ name := "id" }] }
    let staff : TableDeclaration := { name := "staff.v2", columns := [{ name := "id" }] }
    let d : Declaration := .datasource ⟨"main", [⟨"shop", [orders]⟩, ⟨"hr", [staff]⟩]⟩
    let pivot : Element := .column (some "shop") "orders" "id"
    let x : Element := .column (some "hr") "staff.v2" "id"
    ∃ s, d.build = .ok s ∧ pivot ∈ s.elements ∧ x ∈ s.elements ∧
      ((new s pivot).find .column ["hr", "staff.v2", "id"]).1 = .ok x := by
  intro orders staff d pivot x
  have built : d.build = .ok (.ofDatasource ⟨"main", [⟨"shop", [orders.build]⟩,
    ⟨"hr", [staff.build]⟩]⟩) := rfl
  refine ⟨_, built, by decide, by decide, ?_⟩
  exact ((find_path_iff_reaches d _ built).2 pivot (by decide) x (by decide) (by decide)).mpr
    (show '.' ∉ "hr".toList by decide)

/-- A table of a namespace with a dot in its name is not found by its qualified path, and a table
that stands alone is not found from its own column. -/
theorem not_found_by_own_path :
    let t : TableDeclaration := { name := "t", columns := [{ name := "id" }] }
    (∃ s, (Declaration.datasource ⟨"main", [⟨"a.b", [t]⟩]⟩).build = .ok s ∧
      .datasource ∈ s.elements ∧ .table (some "a.b") "t" ∈ s.elements ∧
      ((new s .datasource).find .table (Element.table (some "a.b") "t").path).1 =
        .error ⟨["a", "b"], .space, .notFound⟩) ∧
    ∃ s, (Declaration.table t).build = .ok s ∧
      .column none "t" "id" ∈ s.elements ∧ .table none "t" ∈ s.elements ∧
      ((new s (.column none "t" "id")).find .table (Element.table none "t").path).1 =
        .error ⟨["t"], .table, .notFound⟩ := by
  intro t
  constructor
  · have built : (Declaration.datasource ⟨"main", [⟨"a.b", [t]⟩]⟩).build =
        .ok (.ofDatasource ⟨"main", [⟨"a.b", [t.build]⟩]⟩) := rfl
    exact ⟨_, built, by decide, by decide, rfl⟩
  · have built : (Declaration.table t).build = .ok (.ofTable t.build) := rfl
    exact ⟨_, built, by decide, by decide, rfl⟩

end Resolver
end SqlFragment
