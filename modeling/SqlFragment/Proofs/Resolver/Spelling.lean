import SqlFragment.Proofs.Resolver.Qualified

/-
Paths that begin with the datasource. Such a path spells the element that it leads to, in every state
of the resolver: neither aliases nor what was looked up before can lead it elsewhere.
-/
namespace SqlFragment

/-- The element of a kind that a path from the datasource downwards spells. -/
def ElementKind.spelled? : ElementKind → Path → Option Element
  | .space, [_, name] => some (.space name)
  | .table, [_, home, name] => some (.table (some home) name)
  | .column, [_, home, host, name] => some (.column (some home) host name)
  | _, _ => none

theorem ElementKind.spelled?_column {path : Path} (full : path.length = 4) :
    (column.spelled? path).isSome = true := by
  match path, full with
  | [_, _, _, _], _ => rfl

theorem ElementKind.spelled?_table {path : Path} (full : path.length = 3) :
    (table.spelled? path).isSome = true := by
  match path, full with
  | [_, _, _], _ => rfl

theorem ElementKind.path_subset_of_spelled? {kind : ElementKind} {path : Path} {x : Element}
    (spells : kind.spelled? path = some x) : x.path ⊆ path := by
  unfold spelled? at spells
  split at spells <;> cases spells <;> exact List.subset_cons_self _ _

/-- The cache of a scope holds no other element for a path than the one that the path spells. -/
def Scope.Spelled (s : Scope) : Prop :=
  ∀ kind path e x, s.cached? kind path = some e → kind.spelled? path = some x → e = x

namespace Resolver
variable {r : Resolver} {kind : ElementKind} {path : Path} {e x : Element}

/-- An answer for a path that spells an element is that element, or is found by a search. -/
theorem eq_or_search (spelled : r.scope.Spelled) (spells : kind.spelled? path = some x)
    (found : (r.find kind path).1 = .ok e) :
    e = x ∨ (match r.search kind path with
      | .answered result => result
      | .within outerKind outerPath next => next (r.find outerKind outerPath).1) = .ok e := by
  rw [find_answer] at found
  split at found
  · rename_i held
    cases found
    unfold remembered? at held
    split at held
    · cases held
    · exact .inl (spelled kind path e x held spells)
  · exact .inr found

theorem find_spelled_space (spelled : r.scope.Spelled) {source name : String}
    (found : (r.find .space [source, name]).1 = .ok e) : e = .space name := by
  rcases eq_or_search spelled rfl found with known | searched
  · exact known
  · have resolved : r.resolveSpace? [source, name] = some e := answer_eq_ok.mp searched
    obtain ⟨n, here, rfl⟩ := Option.map_eq_some_iff.mp resolved
    obtain ⟨d, _, inside⟩ := Option.bind_eq_some_iff.mp here
    rw [Datasource.name_of_space? inside]

theorem find_spelled_table (spelled : r.scope.Spelled) {source space name : String}
    (found : (r.find .table [source, space, name]).1 = .ok e) : e = .table (some space) name := by
  rcases eq_or_search spelled rfl found with known | searched
  · exact known
  · obtain ⟨home, t, outer, held, rfl⟩ := tableAnswer_eq_ok.mp searched
    cases find_spelled_space spelled outer
    rw [Schema.name_of_table? held]

theorem find_spelled_column (spelled : r.scope.Spelled) {source space table name : String}
    (found : (r.find .column [source, space, table, name]).1 = .ok e) :
    e = .column (some space) table name := by
  rcases eq_or_search spelled rfl found with known | searched
  · exact known
  · obtain ⟨home, t, c, outer, held, rfl⟩ := columnAnswer_eq_ok.mp searched
    cases find_spelled_table spelled outer
    rw [Schema.name_of_column? held]

/-- A path from the datasource downwards leads to the element that it spells. -/
theorem find_spelled (spelled : r.scope.Spelled) (spells : kind.spelled? path = some x)
    (found : (r.find kind path).1 = .ok e) : e = x := by
  unfold ElementKind.spelled? at spells
  split at spells
  · exact (find_spelled_space spelled found).trans (Option.some.inj spells)
  · exact (find_spelled_table spelled found).trans (Option.some.inj spells)
  · exact (find_spelled_column spelled found).trans (Option.some.inj spells)
  · cases spells

theorem kept_spelled : Scope.Kept fun _ s => s.Spelled where
  empty _ _ := by
    intro _ _ _ _ held
    cases held
  setAlias spelled name a := by
    intro kind path e x held spells
    rw [Scope.cached?_setAlias] at held
    split at held
    · cases held
    · exact spelled kind path e x held spells
  store spelled found := by
    intro kind path e x held spells
    rw [cached?_store] at held
    split at held
    · -- what is stored is the answer that was found in the scope as it was before
      rename_i this
      cases held
      obtain ⟨rfl, rfl⟩ := Prod.mk.inj this.2
      exact find_spelled spelled spells found
    · exact spelled kind path e x held spells

end Resolver
end SqlFragment
