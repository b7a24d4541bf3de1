import SqlFragment.Proofs.Resolver.Nesting
import SqlFragment.Proofs.Resolver.Qualified
import SqlFragment.Proofs.Schema.Hierarchy

/-
What is found has the name that was asked for. The full name of an element begins with its
datasource; a path that does not begin with an alias ends the full name of what it is resolved to. A
table that is found by its name alone outside the namespace of the pivot is the only one of its
name.
-/
namespace SqlFragment

namespace Schema

def fullName (s : Schema) (x : Element) : Path :=
  (s.datasource?.map Datasource.name).toList ++ x.path

def tablesNamed (s : Schema) (name : String) : List Element :=
  s.elements.filter fun x => x.kind = .table && s.elementName x = name

section
variable {s : Schema} {home : Option String} {space table name : String} {n : Namespace} {t : Table}
  {x : Element}

theorem mem_elements_of_table (found : s.table? home name = some t) (inside : x ∈ t.elements home) :
    x ∈ s.elements := by
  cases home with
  | some space =>
    simp only [table?, tablesIn] at found
    split at found
    · rename_i n held
      refine mem_elements_of_space (List.mem_of_find?_eq_some held) ?_
      obtain rfl := name_of_space? held
      exact Namespace.mem_elements.mpr (.inr ⟨t, List.mem_of_find?_eq_some found, inside⟩)
    · cases found
  | none =>
    cases s with
    | ofTable only =>
      cases List.mem_singleton.mp (List.mem_of_find?_eq_some found)
      exact inside
    | ofDatasource d => cases found
    | ofNamespace n => cases found

theorem space_mem_of_space? (found : s.space? space = some n) : .space space ∈ s.elements := by
  obtain rfl := name_of_space? found
  exact mem_elements_of_space (List.mem_of_find?_eq_some found) List.mem_cons_self

theorem table_mem_of_table? (found : s.table? home name = some t) :
    .table home name ∈ s.elements := by
  obtain rfl := name_of_table? found
  exact mem_elements_of_table found List.mem_cons_self

theorem column_mem_of_column? {c : Column} (found : s.column? home table name = some c) :
    .column home table name ∈ s.elements := by
  obtain rfl := name_of_column? found
  obtain ⟨t, host, held⟩ := Option.bind_eq_some_iff.mp found
  obtain rfl := name_of_table? host
  exact mem_elements_of_table host
    (Table.mem_elements.mpr (.inr ⟨c, List.mem_of_find?_eq_some held, rfl⟩))

theorem fullName_table (s : Schema) (space name : String) :
    s.fullName (.table (some space) name) = s.fullName (.space space) ++ [name] := by
  simp [fullName, Element.path]

theorem fullName_column (s : Schema) (home : Option String) (table name : String) :
    s.fullName (.column home table name) = s.fullName (.table home table) ++ [name] := by
  simp [fullName, Element.path]

theorem suffix_fullName_space (s : Schema) (name : String) : [name] <:+ s.fullName (.space name) :=
  List.suffix_append _ _

theorem suffix_fullName_table (s : Schema) (home : Option String) (name : String) :
    [name] <:+ s.fullName (.table home name) := by
  refine ⟨(s.datasource?.map Datasource.name).toList ++ home.toList, ?_⟩
  simp [fullName, Element.path]

theorem eq_ofDatasource {d : Datasource} (source : s.datasource? = some d) : s = .ofDatasource d := by
  cases s <;> cases source
  rfl

end
end Schema

namespace Datasource
variable {d : Datasource} {name : String} {x : Element}

theorem mem_keyedElements {entry : Path × Element} : entry ∈ d.keyedElements ↔
    ∃ home name, entry = ([home, name], .table (some home) name) ∧
      .table (some home) name ∈ (Schema.ofDatasource d).elements := by
  constructor
  · intro mem
    obtain ⟨n, member, inside⟩ := List.mem_flatMap.mp mem
    obtain ⟨t, here, rfl⟩ := List.mem_map.mp inside
    refine ⟨n.name, t.name, rfl, Schema.mem_elements_of_space member ?_⟩
    exact Namespace.mem_elements.mpr (.inr ⟨t, here, List.mem_cons_self⟩)
  · rintro ⟨home, name, rfl, mem⟩
    obtain ⟨n, member, rfl, inside⟩ := Schema.mem_spaces_of_mem mem rfl
    rcases Namespace.mem_elements.mp inside with same | ⟨t, here, deeper⟩
    · cases same
    · rcases Table.mem_elements.mp deeper with same | ⟨c, _, same⟩
      · cases same
        exact List.mem_flatMap.mpr ⟨n, member, List.mem_map.mpr ⟨t, here, rfl⟩⟩
      · cases same

theorem tablesNamed_of_get? (named : d.WellNamed)
    (found : (Hierarchy.ofList d.keyedElements).get? [name] = some x) :
    ∃ home, x = .table home name ∧ (Schema.ofDatasource d).tablesNamed name = [x] := by
  obtain ⟨key, mem, ends, single⟩ := (Hierarchy.get?_ofList (named.nodup_keys _)).mp found
  obtain ⟨home, own, same, inside⟩ := mem_keyedElements.mp mem
  cases same
  obtain rfl : own = name := by
    obtain ⟨front, joined⟩ := ends
    simpa using (congrArg List.getLast? joined).symm
  have only : ∀ other ∈ d.keyedElements, [own] <:+ other.1 →
      other = ([home, own], .table (some home) own) := by
    rcases single with short | only
    · cases short
    · exact only
  have wellNamed : (Schema.ofDatasource d).WellNamed := named
  refine ⟨_, rfl, (Hierarchy.filter_eq_singleton wellNamed.nodup).mpr ⟨inside, ?_, ?_⟩⟩
  · simp [Element.kind, Schema.elementName]
  · intro y mem isNamed
    simp only [Bool.and_eq_true, decide_eq_true_eq] at isNamed
    cases y with
    | datasource | space | column => cases isNamed.1
    | table home' name =>
      obtain rfl : name = own := isNamed.2
      cases home' with
      | none =>
        obtain ⟨t, alone, -⟩ := Schema.alone_of_mem mem
        cases alone
      | some space =>
        have entry := mem_keyedElements.mpr ⟨space, name, rfl, mem⟩
        exact congrArg Prod.snd (only _ entry ⟨[space], rfl⟩)

end Datasource

namespace Resolver

def bareTable? : ElementKind → Path → Option String
  | .table, [name] => some name
  | .column, [name, _] => some name
  | _, _ => none

/-- What a look-up may answer. -/
structure Sound (r : Resolver) (kind : ElementKind) (path : Path) (x : Element) : Prop where
  mem : x ∈ r.schema.elements
  ofKind : x.kind = kind
  ends : path <:+ r.schema.fullName x
  single : ∀ name, bareTable? kind path = some name → x.space? ≠ r.pivot.space? →
    r.schema.tablesNamed name = [.table x.space? name]

section
variable {r : Resolver} {kind : ElementKind} {path : Path} {name : String} {x : Element}

theorem aliasedElement?_of_free (free : r.scope.isAlias name = false) :
    r.scope.aliasedElement? name = none := by
  have none : r.scope.alias? name = none := by simpa [Scope.isAlias] using free
  rw [Scope.aliasedElement?, none]

theorem sound_space_of_space? {n : Namespace} (held : r.schema.space? name = some n)
    (ends : path <:+ r.schema.fullName (.space name)) : Sound r .space path (.space name) where
  mem := Schema.space_mem_of_space? held
  ofKind := rfl
  ends := ends
  single _ bare := by cases bare

theorem sound_space (free : path.head?.any r.scope.isAlias = false)
    (found : r.resolveSpace? path = some x) : Sound r .space path x := by
  match path with
  | [] | _ :: _ :: _ :: _ => cases found
  | [name] =>
    simp only [resolveSpace?, aliasedElement?_of_free free] at found
    split at found
    · rename_i n inSource
      obtain ⟨d, source, held⟩ := Option.bind_eq_some_iff.mp inSource
      cases found
      rw [Datasource.name_of_space? held]
      have inSchema : r.schema.space? name = some n := by rwa [Schema.eq_ofDatasource source]
      exact sound_space_of_space? inSchema (Schema.suffix_fullName_space r.schema name)
    · obtain ⟨n, here, rfl⟩ := Option.map_eq_some_iff.mp found
      obtain ⟨home, same⟩ := Option.filter_eq_some_iff.mp here
      obtain ⟨space, _, held⟩ := Option.bind_eq_some_iff.mp home
      obtain rfl : n.name = name := by simpa using same
      rw [← Schema.name_of_space? held] at held
      exact sound_space_of_space? held (Schema.suffix_fullName_space r.schema n.name)
  | [source, name] =>
    obtain ⟨n, here, rfl⟩ := Option.map_eq_some_iff.mp found
    obtain ⟨d, isSource, held⟩ := Option.bind_eq_some_iff.mp here
    obtain ⟨above, same⟩ := Option.filter_eq_some_iff.mp isSource
    obtain rfl : d.name = source := by simpa using same
    have schema := Schema.eq_ofDatasource above
    have inSchema : r.schema.space? name = some n := by rwa [schema]
    rw [Datasource.name_of_space? held]
    refine sound_space_of_space? inSchema ⟨[], ?_⟩
    rw [schema]
    rfl

/-- A table by its name alone is the pivot, in the namespace of the pivot, or alone of its name. -/
theorem resolveTable?_cases (free : r.scope.isAlias name = false)
    (found : r.resolveTable? name = some x) :
    (∃ home, r.pivot = .table home name ∧ x = .table home name) ∨
    (∃ n t, r.home? = some n ∧ n.table? name = some t ∧ x = .table (some n.name) t.name) ∨
    ∃ d, r.datasource? = some d ∧ (Hierarchy.ofList d.keyedElements).get? [name] = some x := by
  simp only [resolveTable?, aliasedElement?_of_free free, Option.orElse_eq_orElse,
    Option.orElse_eq_or, Option.or_eq_some_iff] at found
  rcases found with here | ⟨-, inHome | ⟨-, anywhere⟩⟩
  · left
    split at here
    · rename_i home own isPivot
      split at here
      · rename_i same
        cases here
        exact ⟨home, by rw [isPivot, same], by rw [same]⟩
      · cases here
    · cases here
  · right; left
    obtain ⟨n, home, found⟩ := Option.bind_eq_some_iff.mp inHome
    obtain ⟨t, held, rfl⟩ := Option.map_eq_some_iff.mp found
    exact ⟨n, t, home, held, rfl⟩
  · right; right
    obtain ⟨d, source, held⟩ := Option.bind_eq_some_iff.mp anywhere
    exact ⟨d, source, held⟩

theorem sound_bareTable (named : r.schema.WellNamed) (rooted : r.pivot ∈ r.schema.elements)
    (free : r.scope.isAlias name = false) (found : r.resolveTable? name = some x) :
    Sound r .table [name] x := by
  rcases resolveTable?_cases free found with
    ⟨home, isPivot, rfl⟩ | ⟨n, t, home, held, rfl⟩ | ⟨d, source, alone⟩
  · rw [isPivot] at rooted
    refine ⟨rooted, rfl, Schema.suffix_fullName_table _ _ _, ?_⟩
    intro _ _ outside
    rw [isPivot] at outside
    exact absurd rfl outside
  · obtain ⟨space, inside, spaced⟩ := Option.bind_eq_some_iff.mp home
    obtain rfl := Schema.name_of_space? spaced
    obtain rfl : t.name = name := by simpa using List.find?_some held
    refine ⟨?_, rfl, Schema.suffix_fullName_table _ _ _, ?_⟩
    · refine Schema.mem_elements_of_space (List.mem_of_find?_eq_some spaced) ?_
      exact Namespace.mem_elements.mpr
        (.inr ⟨t, List.mem_of_find?_eq_some held, List.mem_cons_self⟩)
    · intro _ _ outside
      exact absurd inside.symm outside
  · have schema := Schema.eq_ofDatasource source
    rw [schema] at named
    obtain ⟨home, rfl, only⟩ := Datasource.tablesNamed_of_get? named alone
    rw [← schema] at only
    refine ⟨?_, rfl, Schema.suffix_fullName_table _ _ _, ?_⟩
    · have listed : .table home name ∈ r.schema.tablesNamed name := by
        rw [only]
        exact List.mem_cons_self
      exact (List.mem_filter.mp listed).1
    · intro _ bare _
      cases bare
      exact only

theorem sound_column_of_column? {home : Option String} {table : String} {c : Column}
    (held : r.schema.column? home table name = some c)
    (ends : path <:+ r.schema.fullName (.column home table name))
    (single : ∀ own, bareTable? .column path = some own → home ≠ r.pivot.space? →
      r.schema.tablesNamed own = [.table home own]) :
    Sound r .column path (.column home table name) where
  mem := Schema.column_mem_of_column? held
  ofKind := rfl
  ends := ends
  single := single

theorem sound_bareColumn (free : r.scope.isAlias name = false)
    (found : r.bareColumn name = .ok x) : Sound r .column [name] x := by
  rw [bareColumn, aliasedElement?_of_free free] at found
  cases referred : r.defaultTable? with
  | none =>
    rw [referred] at found
    cases found
  | some table =>
    rw [referred] at found
    have inTable : r.columnAnswer [name] name (.ok table) = .ok x := found
    obtain ⟨home, t, c, -, held, rfl⟩ := columnAnswer_eq_ok.mp inTable
    rw [Schema.name_of_column? held]
    refine sound_column_of_column? held ?_ ?_
    · rw [Schema.fullName_column]
      exact List.suffix_append _ _
    · intro own bare
      cases bare

theorem sound_answered (named : r.schema.WellNamed) (rooted : r.pivot ∈ r.schema.elements)
    (free : path.head?.any r.scope.isAlias = false)
    (answered : r.search kind path = .answered (.ok x)) : Sound r kind path x := by
  cases kind with
  | datasource =>
    have found := answer_eq_ok.mp (Search.answered.inj answered)
    obtain ⟨d, source, rfl⟩ := Option.map_eq_some_iff.mp found
    obtain ⟨above, same⟩ := Option.filter_eq_some_iff.mp source
    obtain rfl : path = [d.name] := by simpa using same
    have schema := Schema.eq_ofDatasource above
    refine ⟨?_, rfl, ?_, ?_⟩
    · rw [schema]
      exact List.mem_cons_self
    · rw [schema]
      exact List.suffix_refl _
    · intro own bare
      cases bare
  | space => exact sound_space free (answer_eq_ok.mp (Search.answered.inj answered))
  | table =>
    match path with
    | [] | [_, _] | [_, _, _] | _ :: _ :: _ :: _ :: _ => cases answered
    | [name] =>
      exact sound_bareTable named rooted free (answer_eq_ok.mp (Search.answered.inj answered))
  | column =>
    match path with
    | [] | [_, _] | [_, _, _] | [_, _, _, _] | _ :: _ :: _ :: _ :: _ :: _ => cases answered
    | [name] => exact sound_bareColumn free (Search.answered.inj answered)

section
variable {outerKind : ElementKind} {outerPath : Path}
  {next : Except ResolutionError Element → Except ResolutionError Element}

theorem parse_segment {text : String} (free : '.' ∉ text.toList) :
    Path.parse text = [] ∨ Path.parse text = [text] := by
  rw [Path.parse_of_not_mem free]
  split
  · exact .inl rfl
  · exact .inr rfl

/-- The outer element has the path without its last segment, unless that path is empty. -/
theorem search_within_path (plain : path.Plain)
    (via : r.search kind path = .within outerKind outerPath next) :
    ∃ name, (outerPath = [] ∨ path = outerPath ++ [name]) ∧
      (kind = .table ∧ outerKind = .space ∧ next = r.tableAnswer path name ∨
        kind = .column ∧ outerKind = .table ∧ next = r.columnAnswer path name) := by
  cases kind with
  | datasource | space => cases via
  | table =>
    match path with
    | [] | [_] | _ :: _ :: _ :: _ :: _ => cases via
    | [space, name] =>
      cases via
      refine ⟨name, ?_, .inl ⟨rfl, rfl, rfl⟩⟩
      rcases parse_segment (plain space List.mem_cons_self) with empty | own
      · exact .inl empty
      · exact .inr (by rw [own]; rfl)
    | [source, space, name] =>
      cases via
      exact ⟨name, .inr rfl, .inl ⟨rfl, rfl, rfl⟩⟩
  | column =>
    match path with
    | [] | [_] | _ :: _ :: _ :: _ :: _ :: _ => cases via
    | [table, name] =>
      cases via
      refine ⟨name, ?_, .inr ⟨rfl, rfl, rfl⟩⟩
      rcases parse_segment (plain table List.mem_cons_self) with empty | own
      · exact .inl empty
      · exact .inr (by rw [own]; rfl)
    | [space, table, name] | [source, space, table, name] =>
      cases via
      exact ⟨name, .inr rfl, .inr ⟨rfl, rfl, rfl⟩⟩

theorem find_nil : (r.uncached.find kind []).1 ≠ .ok x := by
  rw [find_uncached_answer]
  cases kind with
  | datasource => cases source : r.datasource? <;> simp [search, source, answer, Option.filter]
  | space | table | column => simp [search, answer, resolveSpace?]

theorem suffix_concat {front whole : Path} (ends : front <:+ whole) (name : String) :
    front ++ [name] <:+ whole ++ [name] := by
  obtain ⟨start, rfl⟩ := ends
  exact ⟨start, (List.append_assoc _ _ _).symm⟩

theorem Sound.table {space : String} {t : Table} (outer : Sound r .space outerPath (.space space))
    (nonempty : outerPath ≠ []) (held : r.schema.table? (some space) name = some t) :
    Sound r .table (outerPath ++ [name]) (.table (some space) name) := by
  refine ⟨Schema.table_mem_of_table? held, rfl, ?_, ?_⟩
  · rw [Schema.fullName_table]
    exact suffix_concat outer.ends name
  · intro own bare
    cases outerPath with
    | nil => exact absurd rfl nonempty
    | cons first rest => cases rest <;> cases bare

theorem bareTable?_concat (path : Path) (name : String) :
    bareTable? .column (path ++ [name]) = bareTable? .table path := by
  match path with
  | [] | [_] | [_, _] | _ :: _ :: _ :: _ => rfl

theorem Sound.column {home : Option String} {table : String} {c : Column}
    (outer : Sound r .table outerPath (.table home table))
    (held : r.schema.column? home table name = some c) :
    Sound r .column (outerPath ++ [name]) (.column home table name) := by
  refine sound_column_of_column? held ?_ ?_
  · rw [Schema.fullName_column]
    exact suffix_concat outer.ends name
  · rw [bareTable?_concat]
    exact outer.single

theorem sound_find_uncached (named : r.schema.WellNamed) (rooted : r.pivot ∈ r.schema.elements)
    (plain : path.Plain) (free : path.head?.any r.scope.isAlias = false)
    (found : (r.uncached.find kind path).1 = .ok x) : Sound r kind path x := by
  -- over the outer elements that a look-up goes on from; they begin with the same segment
  induction kind, path using r.search_induction generalizing x with
  | step kind path ih =>
    rw [find_uncached_answer] at found
    cases via : r.search kind path with
    | answered result =>
      rw [via] at found
      cases found
      exact sound_answered named rooted free via
    | within outerKind outerPath next =>
      rw [via] at found
      have begins : outerPath.head?.any r.scope.isAlias = false := by
        cases head : outerPath.head? with
        | none => rfl
        | some first => rwa [head?_within plain via head] at free
      have nonempty : ∀ {y}, (r.uncached.find outerKind outerPath).1 = .ok y → outerPath ≠ [] := by
        rintro y inner rfl
        exact find_nil inner
      obtain ⟨name, split, ⟨rfl, rfl, rfl⟩ | ⟨rfl, rfl, rfl⟩⟩ := search_within_path plain via
      · obtain ⟨space, t, inner, held, rfl⟩ := tableAnswer_eq_ok.mp found
        have outer := ih _ _ _ via (plain_within plain via) begins inner
        rw [split.resolve_left (nonempty inner), Schema.name_of_table? held]
        exact outer.table (nonempty inner) held
      · obtain ⟨home, table, c, inner, held, rfl⟩ := columnAnswer_eq_ok.mp found
        have outer := ih _ _ _ via (plain_within plain via) begins inner
        rw [split.resolve_left (nonempty inner), Schema.name_of_column? held]
        exact outer.column held

end
end

/-- The current scope and those it is nested in start from elements of the schema. -/
def Rooted (r : Resolver) : Prop := ∀ s ∈ r.scope :: r.outer, s.pivot ∈ r.schema.elements

/-- A step that opens no scope on anything but an element of the schema. -/
def Move.Within (s : Schema) : Move → Prop
  | .push pivot => pivot ∈ s.elements
  | _ => True

instance (s : Schema) : DecidablePred (Move.Within s)
  | .push pivot => inferInstanceAs (Decidable (pivot ∈ s.elements))
  | .pop | .setAlias _ _ | .find _ _ => isTrue trivial

section
variable {r : Resolver}

theorem Rooted.move (rooted : r.Rooted) {m : Move} (inside : m.Within r.schema) :
    (r.move m).Rooted := by
  cases m with
  | push pivot =>
    intro s mem
    rcases List.mem_cons.mp mem with rfl | later
    · exact inside
    · exact rooted s later
  | pop =>
    obtain ⟨schema, scope, outer⟩ := r
    cases outer with
    | nil => exact rooted
    | cons next outer =>
      intro s mem
      exact rooted s (List.mem_cons_of_mem _ mem)
  | setAlias name a =>
    intro s mem
    rcases List.mem_cons.mp mem with rfl | later
    · exact rooted r.scope List.mem_cons_self
    · exact rooted s (List.mem_cons_of_mem _ later)
  | find kind path =>
    intro s mem
    have schema := r.schema_move (.find kind path)
    obtain ⟨outer, pivot⟩ := r.move_stays (.find kind path) rfl rfl
    rw [schema]
    rcases List.mem_cons.mp mem with rfl | later
    · have same : (r.move (.find kind path)).scope.pivot = r.scope.pivot := pivot
      rw [same]
      exact rooted r.scope List.mem_cons_self
    · rw [outer] at later
      exact rooted s (List.mem_cons_of_mem _ later)

theorem Rooted.moves (rooted : r.Rooted) {steps : List Move}
    (inside : ∀ m ∈ steps, m.Within r.schema) : (r.moves steps).Rooted := by
  induction steps generalizing r with
  | nil => exact rooted
  | cons m steps ih =>
    refine ih (rooted.move (inside m List.mem_cons_self)) ?_
    rw [schema_move]
    intro later mem
    exact inside later (List.mem_cons_of_mem m mem)

theorem rooted_new {s : Schema} {pivot : Element} (start : pivot ∈ s.elements) :
    (new s pivot).Rooted := by
  intro scope mem
  rw [List.mem_singleton.mp mem]
  exact start

end

/-- In a declared schema, after any steps, a path that does not begin with an alias is resolved to an
element of the kind asked for whose full name ends in the path. If this is done by the name of a
table alone, and the table lies outside the namespace of the pivot, then no other table has the
name. -/
theorem find_names_element {d : Declaration} {s : Schema} (built : d.build = .ok s)
    {pivot : Element} (start : pivot ∈ s.elements) {steps : List Move}
    (inside : ∀ m ∈ steps, m.Within s) {kind : ElementKind} {path : Path} (plain : path.Plain)
    (free : path.head?.any ((new s pivot).moves steps).scope.isAlias = false) {x : Element}
    (found : (((new s pivot).moves steps).find kind path).1 = .ok x) :
    x ∈ s.elements ∧ x.kind = kind ∧ path <:+ s.fullName x ∧
      ∀ name, bareTable? kind path = some name →
        x.space? ≠ ((new s pivot).moves steps).pivot.space? →
          s.tablesNamed name = [.table x.space? name] := by
  have schema : ((new s pivot).moves steps).schema = s := schema_moves _ steps
  have faithful := (faithful_new s pivot).moves steps _ List.mem_cons_self
  have rooted := (rooted_new start).moves inside _ List.mem_cons_self
  have named : ((new s pivot).moves steps).schema.WellNamed := by
    rw [schema]
    exact Declaration.wellNamed_build built
  rw [find_uncached faithful plain] at found
  obtain ⟨mem, ofKind, ends, single⟩ := sound_find_uncached named rooted plain free found
  rw [schema] at mem ends single
  exact ⟨mem, ofKind, ends, single⟩

def warehouse : Declaration :=
  let orders : TableDeclaration := { name := "orders", columns := [{ name := "id" }] }
  let items : TableDeclaration := { name := "items", columns := [{ name := "sku" }] }
  .datasource ⟨"main", [⟨"shop", [orders]⟩, ⟨"stock", [orders, items]⟩]⟩

/-- A column is looked up twice from a table in another namespace, under an alias. -/
def warehouseSteps : List Move :=
  [.push (.table (some "shop") "orders"),
    .setAlias "o" (.element (.table (some "stock") "orders")), .find .column ["items", "sku"]]

theorem find_names_element_in_warehouse :
    ∃ s x, warehouse.build = .ok s ∧ (∀ m ∈ warehouseSteps, m.Within s) ∧
      (((new s .datasource).moves warehouseSteps).find .column ["items", "sku"]).1 = .ok x ∧
      ["items", "sku"] <:+ s.fullName x ∧
      s.tablesNamed "items" = [.table (some "stock") "items"] := by
  refine ⟨_, .column (some "stock") "items" "sku", rfl, by decide, rfl, ?_⟩
  obtain ⟨-, -, ends, single⟩ := find_names_element (rfl : warehouse.build = .ok _)
    (by decide : .datasource ∈ _) (by decide : ∀ m ∈ warehouseSteps, m.Within _)
    (by decide : Path.Plain ["items", "sku"]) (by decide)
    (rfl : (((new _ .datasource).moves warehouseSteps).find .column ["items", "sku"]).1 =
      .ok (.column (some "stock") "items" "sku"))
  exact ⟨ends, single "items" rfl (by decide)⟩

end Resolver
end SqlFragment
