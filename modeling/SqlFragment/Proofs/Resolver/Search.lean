import SqlFragment.Resolver.Lookup

/-
What a look-up answers, and what it leaves in the cache. The answer for a path that is not in the
cache is found at once or from the answer for one outer element. All that a look-up adds to the
cache are such answers, so that it changes the answer of no other look-up.
-/
namespace SqlFragment

def Scope.uncached (s : Scope) : Scope := { s with cache := [] }

theorem find?_filter_key_ne {κ β : Type} [DecidableEq κ] (entries : List (κ × β)) {key other : κ}
    (different : other ≠ key) :
    ((entries.filter fun entry => entry.1 ≠ key).find? fun entry => entry.1 = other) =
      entries.find? fun entry => entry.1 = other := by
  rw [List.find?_filter]
  congr 1
  funext entry
  grind

namespace Resolver

def uncached (r : Resolver) : Resolver :=
  { r with scope := r.scope.uncached, outer := r.outer.map Scope.uncached }

/-- What is in the cache of the current scope; datasources are never looked for in it. -/
def remembered? (r : Resolver) (kind : ElementKind) (path : Path) : Option Element :=
  if kind = .datasource then none else r.scope.cached? kind path

/-- How a path that is not in the cache is looked up. -/
inductive Search where
  | answered (answer : Except ResolutionError Element)
  /-- Goes on from the answer for an outer element. -/
  | within (kind : ElementKind) (path : Path)
      (next : Except ResolutionError Element → Except ResolutionError Element)

def answer (kind : ElementKind) (path : Path) : Option Element → Except ResolutionError Element
  | some e => .ok e
  | none => .error ⟨path, kind, .notFound⟩

def tableAnswer (r : Resolver) (path : Path) (name : String) :
    Except ResolutionError Element → Except ResolutionError Element
  | .ok e => answer .table path (r.tableOf? e name)
  | .error error => .error error

def columnAnswer (r : Resolver) (path : Path) (name : String) :
    Except ResolutionError Element → Except ResolutionError Element
  | .ok e => answer .column path (r.columnOf? e name)
  | .error _ => answer .column path none

/-- The look-up of a column by its name alone, in the table that such names refer to. -/
def inDefaultTable (r : Resolver) (name : String) : Outcome :=
  match r.defaultTable? with
  | some table => r.conclude .column [name] (r.columnOf? table name)
  | none => (.error ⟨[name], .column, .ambiguous⟩, r)

def bareColumn (r : Resolver) (name : String) : Except ResolutionError Element :=
  match r.scope.aliasedElement? name with
  | some (.column home table aliased) => .ok (.column home table aliased)
  | _ =>
    match r.defaultTable? with
    | some table => answer .column [name] (r.columnOf? table name)
    | none => .error ⟨[name], .column, .ambiguous⟩

def search (r : Resolver) (kind : ElementKind) (path : Path) : Search :=
  match kind with
  | .datasource => .answered (answer .datasource path
      ((r.datasource?.filter fun d => path = [d.name]).map fun _ => .datasource))
  | .space => .answered (answer .space path (r.resolveSpace? path))
  | .table =>
    match path with
    | [name] => .answered (answer .table path (r.resolveTable? name))
    | [space, name] => .within .space (Path.parse space) (r.tableAnswer path name)
    | [source, space, name] => .within .space [source, space] (r.tableAnswer path name)
    | _ => .answered (answer .table path none)
  | .column =>
    match path with
    | [name] => .answered (r.bareColumn name)
    | [table, name] => .within .table (Path.parse table) (r.columnAnswer path name)
    | [space, table, name] => .within .table [space, table] (r.columnAnswer path name)
    | [source, space, table, name] =>
      .within .table [source, space, table] (r.columnAnswer path name)
    | _ => .answered (answer .column path none)

theorem search_within {r : Resolver} {kind outerKind : ElementKind} {path outerPath : Path}
    {next : Except ResolutionError Element → Except ResolutionError Element}
    (via : r.search kind path = .within outerKind outerPath next) :
    (kind = .table ∧ outerKind = .space) ∨ (kind = .column ∧ outerKind = .table) := by
  cases kind with
  | datasource => cases via
  | space => cases via
  | table =>
    left
    simp only [search] at via
    split at via <;> cases via <;> exact ⟨rfl, rfl⟩
  | column =>
    right
    simp only [search] at via
    split at via <;> cases via <;> exact ⟨rfl, rfl⟩

/-- Induction over look-ups: what holds of a look-up whenever it holds of the one it goes on from
holds of all. -/
theorem search_induction {r : Resolver} {P : ElementKind → Path → Prop}
    (step : ∀ kind path, (∀ outerKind outerPath next,
      r.search kind path = .within outerKind outerPath next → P outerKind outerPath) → P kind path)
    (kind : ElementKind) (path : Path) : P kind path := by
  have datasources : ∀ path, P .datasource path := by
    intro path
    refine step _ _ fun _ _ _ via => ?_
    rcases search_within via with ⟨other, _⟩ | ⟨other, _⟩ <;> cases other
  have spaces : ∀ path, P .space path := by
    intro path
    refine step _ _ fun _ _ _ via => ?_
    rcases search_within via with ⟨other, _⟩ | ⟨other, _⟩ <;> cases other
  have tables : ∀ path, P .table path := by
    intro path
    refine step _ _ fun _ _ _ via => ?_
    rcases search_within via with ⟨_, rfl⟩ | ⟨other, _⟩
    · exact spaces _
    · cases other
  have columns : ∀ path, P .column path := by
    intro path
    refine step _ _ fun _ _ _ via => ?_
    rcases search_within via with ⟨other, _⟩ | ⟨_, rfl⟩
    · cases other
    · exact tables _
  cases kind with
  | datasource => exact datasources path
  | space => exact spaces path
  | table => exact tables path
  | column => exact columns path

section
variable (r : Resolver) (kind : ElementKind) (path : Path)

theorem scope_store_uncached (s : Scope) (e : Element) :
    (s.store kind path e).uncached = s.uncached := by
  unfold Scope.store
  split <;> rfl

theorem store_uncached (e : Element) : (r.store kind path e).uncached = r.uncached := by
  simp only [uncached, store, scope_store_uncached]

theorem conclude_schema (found : Option Element) :
    (r.conclude kind path found).2.schema = r.schema := by
  cases found <;> rfl

theorem conclude_answer (found : Option Element) :
    (r.conclude kind path found).1 = answer kind path found := by
  cases found <;> rfl

theorem findSpace_schema : (r.findSpace path).2.schema = r.schema := by
  unfold findSpace
  split
  · rfl
  · split <;> rfl

theorem tableIn_schema {outcome : Outcome} (same : outcome.2.schema = r.schema) (name : String) :
    (tableIn path name outcome).2.schema = r.schema := by
  obtain ⟨result, after⟩ := outcome
  cases result with
  | ok e => exact (conclude_schema _ _ _ _).trans same
  | error error => exact same

theorem findTable_schema : (r.findTable path).2.schema = r.schema := by
  unfold findTable
  split
  · rfl
  · split
    · exact conclude_schema _ _ _ _
    · exact tableIn_schema _ _ (findSpace_schema _ _) _
    · exact tableIn_schema _ _ (findSpace_schema _ _) _
    · exact conclude_schema _ _ _ _

theorem tableIn_answer {outcome : Outcome} (same : outcome.2.schema = r.schema) (name : String) :
    (tableIn path name outcome).1 = r.tableAnswer path name outcome.1 := by
  obtain ⟨result, after⟩ := outcome
  cases result with
  | ok e =>
    have tables : after.tableOf? e name = r.tableOf? e name := by
      simp only [tableOf?, show after.schema = r.schema from same]
    simp only [tableIn, conclude_answer, tableAnswer, tables]
  | error error => rfl

theorem columnIn_answer {outcome : Outcome} (same : outcome.2.schema = r.schema) (name : String) :
    (columnIn path name outcome).1 = r.columnAnswer path name outcome.1 := by
  obtain ⟨result, after⟩ := outcome
  cases result with
  | ok e =>
    have columns : after.columnOf? e name = r.columnOf? e name := by
      simp only [columnOf?, show after.schema = r.schema from same]
    simp only [columnIn, conclude_answer, columnAnswer, columns]
  | error error => simp only [columnIn, conclude_answer, columnAnswer]

theorem inDefaultTable_answer (name : String) : (r.inDefaultTable name).1 =
    match r.defaultTable? with
    | some table => answer .column [name] (r.columnOf? table name)
    | none => .error ⟨[name], .column, .ambiguous⟩ := by
  unfold inDefaultTable
  cases r.defaultTable? with
  | some table => exact conclude_answer _ _ _ _
  | none => rfl

theorem findColumn_bare (name : String) (forgotten : r.scope.cached? .column [name] = none) :
    r.findColumn [name] =
      match r.scope.aliasedElement? name with
      | some (.column home table aliased) => (.ok (.column home table aliased), r)
      | _ => r.inDefaultTable name := by
  simp only [findColumn, forgotten]
  rfl

theorem bareColumn_answer (name : String) (forgotten : r.scope.cached? .column [name] = none) :
    (r.findColumn [name]).1 = r.bareColumn name := by
  rw [findColumn_bare _ _ forgotten, bareColumn]
  cases r.scope.aliasedElement? name with
  | some e =>
    cases e with
    | column home table aliased => rfl
    | _ => exact r.inDefaultTable_answer name
  | none => exact r.inDefaultTable_answer name

/-- The answer of a look-up: what is remembered, else what the search gives. -/
theorem find_answer : (r.find kind path).1 =
    match r.remembered? kind path with
    | some e => .ok e
    | none =>
      match r.search kind path with
      | .answered result => result
      | .within outerKind outerPath next => next (r.find outerKind outerPath).1 := by
  cases kind with
  | datasource =>
    simp only [find, findDatasource, remembered?, search, ↓reduceIte]
    cases r.datasource? with
    | none => rfl
    | some d => by_cases named : path = [d.name] <;> simp [named, answer, Option.filter]
  | space =>
    simp only [find, findSpace, remembered?, search, reduceCtorEq, ↓reduceIte]
    cases r.scope.cached? .space path with
    | some e => rfl
    | none => cases r.resolveSpace? path <;> rfl
  | table =>
    simp only [find, remembered?, reduceCtorEq, ↓reduceIte]
    cases held : r.scope.cached? .table path with
    | some e => simp only [findTable, held]
    | none =>
      -- by the number of segments
      obtain _ | ⟨first, _ | ⟨second, _ | ⟨third, _ | ⟨fourth, rest⟩⟩⟩⟩ := path
      · simp only [findTable, held, search, conclude_answer]
      · simp only [findTable, held, search, conclude_answer]
      · simp only [findTable, held, search]
        exact tableIn_answer _ _ (findSpace_schema _ _) _
      · simp only [findTable, held, search]
        exact tableIn_answer _ _ (findSpace_schema _ _) _
      · simp only [findTable, held, search, conclude_answer]
  | column =>
    simp only [find, remembered?, reduceCtorEq, ↓reduceIte]
    cases held : r.scope.cached? .column path with
    | some e => simp only [findColumn, held]
    | none =>
      obtain _ | ⟨first, _ | ⟨second, _ | ⟨third, _ | ⟨fourth, _ | ⟨fifth, rest⟩⟩⟩⟩⟩ := path
      · simp only [findColumn, held, search, conclude_answer]
      · exact r.bareColumn_answer first held
      · simp only [findColumn, held, search]
        exact columnIn_answer _ _ (findTable_schema _ _) _
      · simp only [findColumn, held, search]
        exact columnIn_answer _ _ (findTable_schema _ _) _
      · simp only [findColumn, held, search]
        exact columnIn_answer _ _ (findTable_schema _ _) _
      · simp only [findColumn, held, search, conclude_answer]

/-- Only the pivots and the aliases of scopes matter for a search. -/
theorem search_uncached : r.uncached.search kind path = r.search kind path := rfl

theorem search_congr {r' : Resolver} (same : r'.uncached = r.uncached) :
    r'.search kind path = r.search kind path := by
  rw [← search_uncached, same, search_uncached]

theorem cached?_store (s : Scope) (e : Element) (otherKind : ElementKind) (other : Path) :
    (s.store kind path e).cached? otherKind other =
      if path.head?.any s.isAlias = false ∧ (kind, path) = (otherKind, other) then some e
      else s.cached? otherKind other := by
  cases aliased : path.head?.any s.isAlias with
  | true => simp [Scope.store, aliased]
  | false =>
    simp only [Scope.store, aliased, Bool.false_eq_true, ↓reduceIte, Scope.cached?,
      List.find?_cons, true_and]
    by_cases same : (kind, path) = (otherKind, other)
    · simp [same]
    · simp only [same, decide_false, ↓reduceIte, find?_filter_key_ne s.cache (Ne.symm same)]

theorem remembered?_store (e : Element) (otherKind : ElementKind) (other : Path) :
    (r.store kind path e).remembered? otherKind other = r.remembered? otherKind other ∨
      (kind, path) = (otherKind, other) ∧
        (r.store kind path e).remembered? otherKind other = some e := by
  simp only [remembered?, store, cached?_store]
  grind

end

/-- Two resolvers give the same answers for the paths of `P` when they search for them in the same
way and what the second one remembers besides are answers of the first. -/
theorem find_eq_of_search {r r' : Resolver} {P : ElementKind → Path → Prop}
    (same : ∀ kind path, P kind path → r'.search kind path = r.search kind path)
    (closed : ∀ kind path outerKind outerPath next, P kind path →
      r.search kind path = .within outerKind outerPath next → P outerKind outerPath)
    (held : ∀ kind path, P kind path →
      r'.remembered? kind path = r.remembered? kind path ∨
        ∃ e, r'.remembered? kind path = some e ∧ (r.find kind path).1 = .ok e)
    {kind : ElementKind} {path : Path} (member : P kind path) :
    (r'.find kind path).1 = (r.find kind path).1 := by
  induction kind, path using r.search_induction with
  | step kind path ih =>
    rcases held kind path member with equal | ⟨e, extra, found⟩
    · rw [find_answer, find_answer r, same kind path member, equal]
      cases r.remembered? kind path with
      | some e => rfl
      | none =>
        cases via : r.search kind path with
        | answered result => rfl
        | within outerKind outerPath next =>
          simp only [ih _ _ _ via (closed _ _ _ _ _ member via)]
    · rw [find_answer, extra, found]

theorem find_store {r : Resolver} {kind : ElementKind} {path : Path} {e : Element}
    (found : (r.find kind path).1 = .ok e) (otherKind : ElementKind) (other : Path) :
    ((r.store kind path e).find otherKind other).1 = (r.find otherKind other).1 := by
  refine find_eq_of_search (P := fun _ _ => True) ?_ (fun _ _ _ _ _ _ _ => trivial) ?_ trivial
  · intro otherKind other _
    exact search_congr _ _ _ (store_uncached r kind path e)
  · intro otherKind other _
    rcases r.remembered?_store kind path e otherKind other with same | ⟨this, held⟩
    · exact .inl same
    · obtain ⟨rfl, rfl⟩ := Prod.mk.inj this
      exact .inr ⟨e, held, found⟩

/-- The second resolver remembers answers of the first in addition to what that one remembers. -/
inductive Grows (r : Resolver) : Resolver → Prop where
  | refl : Grows r r
  | store {r' : Resolver} {kind : ElementKind} {path : Path} {e : Element} (grown : Grows r r')
      (found : (r.find kind path).1 = .ok e) : Grows r (r'.store kind path e)

section
variable {r r' : Resolver}

theorem Grows.uncached_eq (grown : Grows r r') : r'.uncached = r.uncached := by
  induction grown with
  | refl => rfl
  | store _ _ ih => rw [store_uncached, ih]

theorem Grows.find_eq (grown : Grows r r') (kind : ElementKind) (path : Path) :
    (r'.find kind path).1 = (r.find kind path).1 := by
  induction grown generalizing kind path with
  | refl => rfl
  | store grown found ih =>
    rw [find_store ((ih _ _).trans found), ih]

theorem Grows.conclude {kind : ElementKind} {path : Path} {found : Option Element}
    (grown : Grows r r') (same : (r.find kind path).1 = answer kind path found) :
    Grows r (r'.conclude kind path found).2 := by
  cases found with
  | none => exact grown
  | some e => exact grown.store same

theorem Grows.tableIn {path : Path} {outcome : Outcome} {name : String}
    (grown : Grows r outcome.2)
    (same : (r.find .table path).1 = (Resolver.tableIn path name outcome).1) :
    Grows r (Resolver.tableIn path name outcome).2 := by
  obtain ⟨result, after⟩ := outcome
  cases result with
  | error error => exact grown
  | ok e => exact grown.conclude (same.trans (conclude_answer _ _ _ _))

theorem Grows.columnIn {path : Path} {outcome : Outcome} {name : String}
    (grown : Grows r outcome.2)
    (same : (r.find .column path).1 = (Resolver.columnIn path name outcome).1) :
    Grows r (Resolver.columnIn path name outcome).2 := by
  obtain ⟨result, after⟩ := outcome
  cases result <;> exact grown.conclude (same.trans (conclude_answer _ _ _ _))

end

section
variable (r : Resolver) (path : Path)

theorem findSpace_grows : Grows r (r.findSpace path).2 := by
  cases held : r.scope.cached? .space path with
  | some e =>
    simp only [findSpace, held]
    exact .refl
  | none =>
    cases found : r.resolveSpace? path with
    | none =>
      simp only [findSpace, held, found]
      exact .refl
    | some e =>
      have answered : (r.find .space path).1 = .ok e := by simp only [find, findSpace, held, found]
      simp only [findSpace, held, found]
      exact Grows.refl.store answered

theorem findTable_grows : Grows r (r.findTable path).2 := by
  cases held : r.scope.cached? .table path with
  | some e =>
    simp only [findTable, held]
    exact .refl
  | none =>
    have same : (r.find .table path).1 = (r.findTable path).1 := rfl
    simp only [findTable, held] at same ⊢
    match path with
    | [] => exact Grows.refl.conclude (same.trans (conclude_answer _ _ _ _))
    | [name] => exact Grows.refl.conclude (same.trans (conclude_answer _ _ _ _))
    | [space, name] => exact (r.findSpace_grows _).tableIn same
    | [source, space, name] => exact (r.findSpace_grows _).tableIn same
    | _ :: _ :: _ :: _ :: _ => exact Grows.refl.conclude (same.trans (conclude_answer _ _ _ _))

theorem inDefaultTable_grows {name : String}
    (same : (r.find .column [name]).1 = (r.inDefaultTable name).1) :
    Grows r (r.inDefaultTable name).2 := by
  unfold inDefaultTable at same ⊢
  cases table : r.defaultTable? with
  | some table =>
    rw [table] at same
    exact Grows.refl.conclude (same.trans (conclude_answer _ _ _ _))
  | none => exact .refl

theorem bareColumn_grows (name : String) (forgotten : r.scope.cached? .column [name] = none) :
    Grows r (r.findColumn [name]).2 := by
  have same : (r.find .column [name]).1 = (r.findColumn [name]).1 := rfl
  rw [findColumn_bare _ _ forgotten] at same ⊢
  cases aliased : r.scope.aliasedElement? name with
  | some e =>
    rw [aliased] at same
    cases e with
    | column home table aliased => exact .refl
    | _ => exact r.inDefaultTable_grows same
  | none =>
    rw [aliased] at same
    exact r.inDefaultTable_grows same

theorem findColumn_grows : Grows r (r.findColumn path).2 := by
  cases held : r.scope.cached? .column path with
  | some e =>
    simp only [findColumn, held]
    exact .refl
  | none =>
    have same : (r.find .column path).1 = (r.findColumn path).1 := rfl
    match path with
    | [name] => exact r.bareColumn_grows name held
    | [] =>
      simp only [findColumn, held] at same ⊢
      exact Grows.refl.conclude (same.trans (conclude_answer _ _ _ _))
    | [table, name] =>
      simp only [findColumn, held] at same ⊢
      exact (r.findTable_grows _).columnIn same
    | [space, table, name] =>
      simp only [findColumn, held] at same ⊢
      exact (r.findTable_grows _).columnIn same
    | [source, space, table, name] =>
      simp only [findColumn, held] at same ⊢
      exact (r.findTable_grows _).columnIn same
    | _ :: _ :: _ :: _ :: _ :: _ =>
      simp only [findColumn, held] at same ⊢
      exact Grows.refl.conclude (same.trans (conclude_answer _ _ _ _))

theorem find_grows (kind : ElementKind) : Grows r (r.find kind path).2 := by
  cases kind with
  | datasource =>
    simp only [find, findDatasource]
    split
    · split <;> exact .refl
    · exact .refl
  | space => exact r.findSpace_grows path
  | table => exact r.findTable_grows path
  | column => exact r.findColumn_grows path

end

end Resolver
end SqlFragment
