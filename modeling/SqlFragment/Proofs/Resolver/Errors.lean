import SqlFragment.Proofs.Resolver.Transparency

/-
What the error of a failed look-up says. A namespace and a column that are not found are named as
they were asked for, with their whole path. A table is looked up in its namespace, and when the
namespace is missing the error names the namespace in place of the table.
-/
namespace SqlFragment

/-- The error is about what was asked for. -/
def ResolutionError.Names (error : ResolutionError) (kind : ElementKind) (path : Path) : Prop :=
  error.kind = kind ∧ error.path.display = path.display

namespace Resolver

def spacePath? (kind : ElementKind) (path : Path) : Option Path :=
  match kind, path with
  | .table, [space, _] => some (Path.parse space)
  | .table, [source, space, _] => some [source, space]
  | _, _ => none

def faultOf (r : Resolver) (kind : ElementKind) (path : Path) : ResolutionFault :=
  if kind = .column ∧ path.length = 1 ∧ r.defaultTable? = none then .ambiguous else .notFound

section
variable {r : Resolver} {kind : ElementKind} {path outer : Path} {name : String}
  {error : ResolutionError}

theorem answer_eq_error {found : Option Element} (failed : answer kind path found = .error error) :
    error = ⟨path, kind, .notFound⟩ := by
  cases found with
  | some e => cases failed
  | none => exact (Except.error.inj failed).symm

theorem bareColumn_eq_error (failed : r.bareColumn name = .error error) :
    error = ⟨[name], .column, r.faultOf .column [name]⟩ := by
  unfold bareColumn at failed
  split at failed
  · cases failed
  · split at failed
    · rename_i table refers
      simpa [faultOf, refers] using answer_eq_error failed
    · rename_i refers
      simpa [faultOf, refers] using (Except.error.inj failed).symm

theorem tableAnswer_eq_error {space : Except ResolutionError Element}
    (failed : r.tableAnswer path name space = .error error) :
    space = .error error ∨ (∃ e, space = .ok e) ∧ error = ⟨path, .table, .notFound⟩ := by
  cases space with
  | error inner => exact .inl failed
  | ok e => exact .inr ⟨⟨e, rfl⟩, answer_eq_error failed⟩

theorem columnAnswer_eq_error {table : Except ResolutionError Element}
    (failed : r.columnAnswer path name table = .error error) :
    error = ⟨path, .column, .notFound⟩ := by
  cases table with
  | error inner => exact (Except.error.inj failed).symm
  | ok e => exact answer_eq_error failed

/-- What is remembered is no failure, so a failure is one of the search. -/
theorem search_of_find_eq_error (failed : (r.find kind path).1 = .error error) :
    (match r.search kind path with
      | .answered result => result
      | .within outerKind outerPath next => next (r.find outerKind outerPath).1) =
      .error error := by
  rw [find_answer] at failed
  split at failed
  · cases failed
  · exact failed

theorem findSpace_eq_error (failed : (r.find .space path).1 = .error error) :
    error = ⟨path, .space, .notFound⟩ :=
  answer_eq_error (search_of_find_eq_error failed)

/-- A table that is looked up in its namespace fails with the error of the namespace if that is
missing, else with its own. -/
theorem findTable_eq_error (inside : spacePath? kind path = some outer)
    (failed : (r.find kind path).1 = .error error) :
    (r.find .space outer).1 = .error error ∨
      (∃ e, (r.find .space outer).1 = .ok e) ∧ error = ⟨path, kind, .notFound⟩ := by
  have searched := search_of_find_eq_error failed
  unfold spacePath? at inside
  split at inside
  · cases inside
    exact tableAnswer_eq_error searched
  · cases inside
    exact tableAnswer_eq_error searched
  · cases inside

theorem kind_of_spacePath? (inside : spacePath? kind path = some outer) (r : Resolver) :
    kind = .table ∧ r.faultOf kind path = .notFound := by
  unfold spacePath? at inside
  split at inside
  · exact ⟨rfl, rfl⟩
  · exact ⟨rfl, rfl⟩
  · cases inside

theorem find_eq_error (outside : spacePath? kind path = none)
    (failed : (r.find kind path).1 = .error error) : error = ⟨path, kind, r.faultOf kind path⟩ := by
  have searched := search_of_find_eq_error failed
  cases kind with
  | datasource => exact answer_eq_error searched
  | space => exact answer_eq_error searched
  | table =>
    have notFound : r.faultOf .table path = .notFound := rfl
    rw [notFound]
    obtain _ | ⟨_, _ | ⟨_, _ | ⟨_, _ | ⟨_, _⟩⟩⟩⟩ := path
    · exact answer_eq_error searched
    · exact answer_eq_error searched
    · cases outside
    · cases outside
    · exact answer_eq_error searched
  | column =>
    -- by the number of segments; only a name alone can be ambiguous
    obtain _ | ⟨name, _ | ⟨_, _ | ⟨_, _ | ⟨_, _ | ⟨_, _⟩⟩⟩⟩⟩ := path
    · simpa [faultOf] using answer_eq_error searched
    · exact bareColumn_eq_error searched
    · simpa [faultOf] using columnAnswer_eq_error searched
    · simpa [faultOf] using columnAnswer_eq_error searched
    · simpa [faultOf] using columnAnswer_eq_error searched
    · simpa [faultOf] using answer_eq_error searched

end

/-- In every state, a look-up that fails has an error with its own kind and path, exactly if it is
not that of a table in a missing namespace. Such a table has the error of the namespace; all others
say whether there is no such element, or a column name alone that refers to no table. -/
theorem error_names_request_iff (r : Resolver) (kind : ElementKind) (path : Path)
    {error : ResolutionError} (failed : (r.find kind path).1 = .error error) :
    (error.Names kind path ↔
      ∀ outer, spacePath? kind path = some outer → ∃ e, (r.find .space outer).1 = .ok e) ∧
    (error.Names kind path → error = ⟨path, kind, r.faultOf kind path⟩) ∧
    (¬error.Names kind path →
      ∃ outer, spacePath? kind path = some outer ∧ error = ⟨outer, .space, .notFound⟩) := by
  cases inside : spacePath? kind path with
  | none =>
    have own := find_eq_error inside failed
    have named : error.Names kind path := by
      rw [own]
      exact ⟨rfl, rfl⟩
    exact ⟨iff_of_true named nofun, fun _ => own, fun other => absurd named other⟩
  | some outer =>
    obtain ⟨rfl, notFound⟩ := kind_of_spacePath? inside r
    rw [notFound]
    rcases findTable_eq_error inside failed with missing | ⟨present, own⟩
    · have foreign := findSpace_eq_error missing
      have other : ¬error.Names .table path := by
        rw [foreign]
        rintro ⟨⟨⟩, -⟩
      refine ⟨iff_of_false other ?_, fun named => absurd named other, fun _ => ⟨outer, rfl, foreign⟩⟩
      intro found
      obtain ⟨e, ok⟩ := found outer rfl
      cases ok.symm.trans missing
    · have named : error.Names .table path := by
        rw [own]
        exact ⟨rfl, rfl⟩
      refine ⟨iff_of_true named ?_, fun _ => own, fun other => absurd named other⟩
      rintro _ ⟨rfl⟩
      exact present

/-- A table that its namespace lacks is named with its whole path, after the namespace itself was
remembered. -/
theorem error_names_missing_table :
    let orders : Table := ⟨"orders", false, [⟨"id", .integer, false, false, none⟩], []⟩
    let r := (new (.ofDatasource ⟨"main", [⟨"shop", [orders]⟩]⟩) .datasource).moves
      [.find .space ["main", "shop"], .push (.space "shop")]
    let error : ResolutionError := ⟨["main", "shop", "items"], .table, .notFound⟩
    (r.find .table ["main", "shop", "items"]).1 = .error error ∧
      error.Names .table ["main", "shop", "items"] ∧
      error.message = "ResolutionError: table `main.shop.items` not found\n" := by
  intro orders r error
  have failed : (r.find .table ["main", "shop", "items"]).1 = .error error := rfl
  refine ⟨failed, (error_names_request_iff r _ _ failed).1.mpr ?_, by decide⟩
  rintro _ ⟨rfl⟩
  exact ⟨_, rfl⟩

/-- A table in a namespace that does not exist is reported as a missing namespace, though a column
of the same table is reported as itself. -/
theorem missing_namespace_named_for_table :
    let orders : Table := ⟨"orders", false, [⟨"id", .integer, false, false, none⟩], []⟩
    let r := new (.ofDatasource ⟨"main", [⟨"shop", [orders]⟩]⟩) .datasource
    let error : ResolutionError := ⟨["stock"], .space, .notFound⟩
    (r.find .table ["stock", "orders"]).1 = .error error ∧
      ¬error.Names .table ["stock", "orders"] ∧
      error.message = "ResolutionError: namespace `stock` not found\n" ∧
      (r.find .column ["stock", "orders", "id"]).1 =
        .error ⟨["stock", "orders", "id"], .column, .notFound⟩ := by
  intro orders r error
  refine ⟨rfl, ?_, by decide, rfl⟩
  rintro ⟨⟨⟩, -⟩

end Resolver
end SqlFragment
