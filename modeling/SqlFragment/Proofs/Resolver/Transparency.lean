import SqlFragment.Proofs.Resolver.Search
import SqlFragment.Proofs.Text.RoundTrip

/-
The cache never shows in an answer. Whatever scopes were opened and closed, whatever aliases were
set and whatever was looked up before, a path without dots in its segments is answered as if nothing
had been remembered. The invariant is that an entry does not begin with an alias, and that its path,
if it is plain, leads to its element in the scope without a cache.
-/
namespace SqlFragment

/-- What the cache of a scope holds is what look-ups in the scope would find. -/
structure Scope.Faithful (schema : Schema) (s : Scope) : Prop where
  unaliased : ∀ kind path e, s.cached? kind path = some e → path.head?.any s.isAlias = false
  correct : ∀ kind path e, s.cached? kind path = some e → path.Plain →
    ((Resolver.mk schema s.uncached []).find kind path).1 = .ok e

namespace Resolver

/-- All scopes are faithful, the current one and those it is nested in. -/
def Faithful (r : Resolver) : Prop := ∀ s ∈ r.scope :: r.outer, s.Faithful r.schema

section
variable {r r' : Resolver} {kind outerKind : ElementKind} {path outerPath : Path}
  {next : Except ResolutionError Element → Except ResolutionError Element}

theorem find_congr (schema : r'.schema = r.schema) (scope : r'.scope = r.scope)
    (kind : ElementKind) (path : Path) : (r'.find kind path).1 = (r.find kind path).1 := by
  obtain ⟨_, _, _⟩ := r
  obtain ⟨_, _, _⟩ := r'
  cases schema
  cases scope
  refine find_eq_of_search (P := fun _ _ => True) ?_ (fun _ _ _ _ _ _ _ => trivial) ?_ trivial
  · intro _ _ _
    rfl
  · intro _ _ _
    exact .inl rfl

theorem plain_within (plain : path.Plain)
    (via : r.search kind path = .within outerKind outerPath next) : outerPath.Plain := by
  cases kind with
  | datasource | space => cases via
  | table =>
    match path with
    | [] | [_] | _ :: _ :: _ :: _ :: _ => cases via
    | [space, name] =>
      cases via
      exact Path.plain_parse space
    | [source, space, name] =>
      cases via
      intro segment mem
      exact plain segment (by grind)
  | column =>
    match path with
    | [] | [_] | _ :: _ :: _ :: _ :: _ :: _ => cases via
    | [table, name] =>
      cases via
      exact Path.plain_parse table
    | [space, table, name] | [source, space, table, name] =>
      cases via
      intro segment mem
      exact plain segment (by grind)

theorem head?_parse {text : String} (free : '.' ∉ text.toList) {name : String}
    (head : (Path.parse text).head? = some name) : text = name := by
  rw [Path.parse_of_not_mem free] at head
  split at head
  · cases head
  · exact Option.some.inj head

theorem head?_within (plain : path.Plain)
    (via : r.search kind path = .within outerKind outerPath next) {name : String}
    (head : outerPath.head? = some name) : path.head? = some name := by
  cases kind with
  | datasource | space => cases via
  | table =>
    match path with
    | [] | [_] | _ :: _ :: _ :: _ :: _ => cases via
    | [space, _] =>
      cases via
      exact congrArg some (head?_parse (plain space List.mem_cons_self) head)
    | [source, space, name] =>
      cases via
      exact head
  | column =>
    match path with
    | [] | [_] | _ :: _ :: _ :: _ :: _ :: _ => cases via
    | [table, _] =>
      cases via
      exact congrArg some (head?_parse (plain table List.mem_cons_self) head)
    | [space, table, name] | [source, space, table, name] =>
      cases via
      exact head

theorem remembered?_uncached : r.uncached.remembered? kind path = none := by
  unfold remembered?
  split <;> rfl

theorem find_uncached_answer (r : Resolver) (kind : ElementKind) (path : Path) :
    (r.uncached.find kind path).1 =
      match r.search kind path with
      | .answered result => result
      | .within outerKind outerPath next => next (r.uncached.find outerKind outerPath).1 := by
  have answer := r.uncached.find_answer kind path
  rw [remembered?_uncached, search_uncached] at answer
  exact answer

/-- In a faithful scope plain paths are answered as if nothing had been remembered. -/
theorem find_uncached (faithful : r.scope.Faithful r.schema) (plain : path.Plain) :
    (r.find kind path).1 = (r.uncached.find kind path).1 := by
  refine find_eq_of_search (P := fun _ path => path.Plain) ?_
    (fun _ _ _ _ _ plain via => plain_within plain via) ?_ plain
  · intro kind path _
    exact (search_uncached r kind path).symm
  · intro kind path plain
    rw [remembered?_uncached]
    cases held : r.remembered? kind path with
    | none => exact .inl rfl
    | some e =>
      right
      refine ⟨e, rfl, ?_⟩
      unfold remembered? at held
      split at held
      · cases held
      · rw [← faithful.correct kind path e held plain]
        apply find_congr <;> rfl

theorem alias?_setAlias (s : Scope) (name : String) (a : Alias) (other : String) :
    (s.setAlias name a).alias? other = if other = name then some a else s.alias? other := by
  simp only [Scope.setAlias, Scope.alias?, List.find?_cons]
  by_cases same : other = name
  · simp [same]
  · simp only [same, Ne.symm same, decide_false, ↓reduceIte, find?_filter_key_ne s.aliases same]

theorem aliasedElement?_setAlias (s : Scope) {name other : String} (a : Alias)
    (different : other ≠ name) :
    (s.setAlias name a).aliasedElement? other = s.aliasedElement? other := by
  simp only [Scope.aliasedElement?, alias?_setAlias, different, ↓reduceIte]

/-- An alias matters only for paths that begin with it. -/
theorem search_setAlias {name : String} (a : Alias) (other : path.head? ≠ some name) :
    (r.setAlias name a).search kind path = r.search kind path := by
  match path with
  | [] => cases kind <;> rfl
  | [segment] =>
    have different : segment ≠ name := fun same => other (congrArg some same)
    have element := aliasedElement?_setAlias r.scope a different
    cases kind with
    | datasource => rfl
    | space =>
      simp only [search, resolveSpace?, setAlias, element]
      rfl
    | table =>
      simp only [search, resolveTable?, setAlias, element]
      rfl
    | column =>
      simp only [search, bareColumn, setAlias, element]
      rfl
  | [_, _] | [_, _, _] | [_, _, _, _] | _ :: _ :: _ :: _ :: _ :: _ => cases kind <;> rfl

end

end Resolver

namespace Scope
variable {schema : Schema} {s : Scope}

theorem faithful_empty (pivot : Element) : Scope.Faithful schema { pivot } where
  unaliased _ _ _ held := by cases held
  correct _ _ _ held := by cases held

theorem cached?_setAlias (name : String) (a : Alias) (kind : ElementKind) (path : Path) :
    (s.setAlias name a).cached? kind path =
      if path.head? = some name then none else s.cached? kind path := by
  simp only [cached?, setAlias, List.find?_filter]
  split
  · rename_i begins
    rw [Option.map_eq_none_iff, List.find?_eq_none]
    intro entry _
    grind
  · rename_i other
    congr 2
    funext entry
    grind

/-- Setting an alias keeps a scope faithful: the entries that it could change are dropped. -/
theorem Faithful.setAlias (faithful : s.Faithful schema) (name : String) (a : Alias) :
    (s.setAlias name a).Faithful schema where
  unaliased kind path e held := by
    rw [cached?_setAlias] at held
    split at held
    · cases held
    · rename_i other
      have free := faithful.unaliased kind path e held
      cases head : path.head? with
      | none => rfl
      | some segment =>
        have different : segment ≠ name := fun same => other (head.trans (congrArg some same))
        rw [head] at free
        simpa [isAlias, Resolver.alias?_setAlias, different] using free
  correct kind path e held plain := by
    rw [cached?_setAlias] at held
    split at held
    · cases held
    · rename_i other
      rw [← faithful.correct kind path e held plain]
      refine Resolver.find_eq_of_search (P := fun _ path => path.Plain ∧ path.head? ≠ some name)
        ?_ ?_ ?_ ⟨plain, other⟩
      · intro kind path ⟨_, other⟩
        exact Resolver.search_setAlias (r := ⟨schema, s.uncached, []⟩) a other
      · intro kind path _ _ _ ⟨plain, other⟩ via
        refine ⟨Resolver.plain_within plain via, ?_⟩
        intro head
        exact other (Resolver.head?_within plain via head)
      · intro kind path _
        exact .inl rfl

theorem Faithful.store {r : Resolver} (faithful : r.scope.Faithful r.schema) {kind : ElementKind}
    {path : Path} {e : Element} (found : (r.find kind path).1 = .ok e) :
    (r.scope.store kind path e).Faithful r.schema := by
  have aliases : (r.scope.store kind path e).isAlias = r.scope.isAlias := by
    unfold Scope.store
    split <;> rfl
  constructor
  · intro otherKind other held
    rw [aliases]
    intro cached
    rw [Resolver.cached?_store] at cached
    split at cached
    · rename_i this
      obtain ⟨free, same⟩ := this
      obtain ⟨rfl, rfl⟩ := Prod.mk.inj same
      exact free
    · exact faithful.unaliased otherKind other held cached
  · intro otherKind other held cached plain
    rw [Resolver.scope_store_uncached]
    rw [Resolver.cached?_store] at cached
    split at cached
    · rename_i this
      obtain ⟨_, same⟩ := this
      obtain ⟨rfl, rfl⟩ := Prod.mk.inj same
      cases cached
      rw [← found, Resolver.find_uncached faithful plain]
      apply Resolver.find_congr <;> rfl
    · exact faithful.correct otherKind other held cached plain

end Scope

namespace Resolver

inductive Move where
  | push (pivot : Element)
  | pop
  | setAlias (name : String) (a : Alias)
  | find (kind : ElementKind) (path : Path)

/-- The resolver after a step. The first scope is not closed, and a look-up may fail. -/
def move (r : Resolver) : Move → Resolver
  | .push pivot => r.push pivot
  | .pop => r.pop?.getD r
  | .setAlias name a => r.setAlias name a
  | .find kind path => (r.find kind path).2

def moves (r : Resolver) (steps : List Move) : Resolver := steps.foldl move r

end Resolver

/-- A property of scopes that an alias and an answer that is remembered keep. -/
structure Scope.Kept (P : Schema → Scope → Prop) : Prop where
  empty : ∀ schema pivot, P schema { pivot }
  setAlias : ∀ {schema s}, P schema s → ∀ name a, P schema (s.setAlias name a)
  store : ∀ {r : Resolver} {kind path e}, P r.schema r.scope → (r.find kind path).1 = .ok e →
    P r.schema (r.scope.store kind path e)

namespace Resolver

def Each (P : Schema → Scope → Prop) (r : Resolver) : Prop := ∀ s ∈ r.scope :: r.outer, P r.schema s

section
variable {r r' : Resolver} {P : Schema → Scope → Prop}

theorem each_new (kept : Scope.Kept P) (schema : Schema) (pivot : Element) :
    (new schema pivot).Each P := by
  intro s mem
  rw [List.mem_singleton.mp mem]
  exact kept.empty schema pivot

theorem Each.grows (each : r.Each P) (kept : Scope.Kept P) (grown : Grows r r') : r'.Each P := by
  induction grown with
  | refl => exact each
  | store grown found ih =>
    intro s mem
    rcases List.mem_cons.mp mem with rfl | later
    · exact kept.store (ih _ List.mem_cons_self) ((grown.find_eq _ _).trans found)
    · exact ih s (List.mem_cons_of_mem _ later)

theorem Each.move (each : r.Each P) (kept : Scope.Kept P) (m : Move) : (r.move m).Each P := by
  cases m with
  | push pivot =>
    intro s mem
    rcases List.mem_cons.mp mem with rfl | later
    · exact kept.empty r.schema pivot
    · exact each s later
  | pop =>
    obtain ⟨schema, scope, outer⟩ := r
    cases outer with
    | nil => exact each
    | cons next outer =>
      intro s mem
      exact each s (List.mem_cons_of_mem _ mem)
  | setAlias name a =>
    intro s mem
    rcases List.mem_cons.mp mem with rfl | later
    · exact kept.setAlias (each _ List.mem_cons_self) name a
    · exact each s (List.mem_cons_of_mem _ later)
  | find kind path => exact each.grows kept (r.find_grows path kind)

theorem kept_faithful : Scope.Kept fun schema s => s.Faithful schema where
  empty _ pivot := Scope.faithful_empty pivot
  setAlias faithful := faithful.setAlias
  store faithful := faithful.store

theorem faithful_new (schema : Schema) (pivot : Element) : (new schema pivot).Faithful :=
  each_new kept_faithful schema pivot

theorem Faithful.grows (faithful : r.Faithful) (grown : Grows r r') : r'.Faithful :=
  Each.grows faithful kept_faithful grown

theorem Faithful.move (faithful : r.Faithful) (m : Move) : (r.move m).Faithful :=
  Each.move faithful kept_faithful m

theorem Faithful.moves (faithful : r.Faithful) (steps : List Move) : (r.moves steps).Faithful := by
  induction steps generalizing r with
  | nil => exact faithful
  | cons m steps ih => exact ih (faithful.move m)

end

/-- After any steps of name resolution a plain path has the answer that it has when all caches are
emptied, and no path that begins with an alias of the current scope is in its cache. -/
theorem find_moves_eq_find_uncached (schema : Schema) (pivot : Element) (steps : List Move)
    (kind : ElementKind) (path : Path) (plain : path.Plain) :
    (((new schema pivot).moves steps).find kind path).1 =
        (((new schema pivot).moves steps).uncached.find kind path).1 ∧
      ∀ kind path name, path.head? = some name →
        ((new schema pivot).moves steps).scope.isAlias name = true →
          ((new schema pivot).moves steps).scope.cached? kind path = none := by
  have faithful := (faithful_new schema pivot).moves steps _ List.mem_cons_self
  constructor
  · exact find_uncached faithful plain
  · intro kind path name begins aliased
    cases held : ((new schema pivot).moves steps).scope.cached? kind path with
    | none => rfl
    | some e =>
      have free := faithful.unaliased kind path e held
      rw [begins, Option.any_some, aliased] at free
      cases free

/-- A table that was found before an alias hid it is not found any more. -/
theorem find_after_alias_hides_table :
    let orders : Table := ⟨"orders", false, [⟨"id", .integer, false, false, none⟩], []⟩
    let items : Table := ⟨"items", false, [⟨"sku", .string, false, false, none⟩], []⟩
    let shop : Schema := .ofNamespace ⟨"shop", [orders, items]⟩
    let steps : List Move := [.find .column ["orders", "id"], .find .table ["shop", "items"],
      .setAlias "orders" (.element (.table (some "shop") "items"))]
    let r := (new shop (.space "shop")).moves steps
    Path.Plain ["orders", "id"] ∧ r.scope.cache.length = 2 ∧
      (r.find .column ["orders", "id"]).1 = .error ⟨["orders", "id"], .column, .notFound⟩ ∧
      (r.uncached.find .column ["orders", "id"]).1 =
        .error ⟨["orders", "id"], .column, .notFound⟩ := by
  intro orders items shop steps r
  have plain : Path.Plain ["orders", "id"] := by decide
  have transparent := (find_moves_eq_find_uncached shop (.space "shop") steps .column
    ["orders", "id"] plain).1
  have found : (r.find .column ["orders", "id"]).1 =
      .error ⟨["orders", "id"], .column, .notFound⟩ := rfl
  exact ⟨plain, by decide, found, transparent.symm.trans found⟩

end Resolver

end SqlFragment
