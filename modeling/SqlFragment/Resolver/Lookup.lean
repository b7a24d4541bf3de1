import SqlFragment.Resolver.Scope

/-
Looking up paths. A look-up answers from the cache when it can; otherwise it searches from the pivot
of the scope, and remembers what it found. Longer paths are looked up through their parents, which
are remembered as well.
-/
namespace SqlFragment

inductive ResolutionFault where
  | notFound
  | ambiguous
deriving DecidableEq

def ResolutionFault.text : ResolutionFault → String
  | .notFound => "not found"
  | .ambiguous => "ambiguous"

structure ResolutionError where
  path : Path
  kind : ElementKind
  fault : ResolutionFault
deriving DecidableEq

def ResolutionError.message (e : ResolutionError) : String :=
  "ResolutionError: " ++ e.kind.name ++ " `" ++ e.path.display ++ "` " ++ e.fault.text ++ "\n"

namespace Resolver

/-- The outcome of a look-up with the resolver after it. -/
abbrev Outcome := Except ResolutionError Element × Resolver

def datasource? (r : Resolver) : Option Datasource := r.schema.datasource?

def home? (r : Resolver) : Option Namespace := r.pivot.space?.bind r.schema.space?

def resolveSpace? (r : Resolver) (path : Path) : Option Element :=
  match path with
  | [name] =>
    match r.scope.aliasedElement? name with
    | some (.space aliased) => some (.space aliased)
    | _ =>
      match r.datasource?.bind fun d => d.space? name with
      | some n => some (.space n.name)
      | none => (r.home?.filter fun n => n.name = name).map fun n => .space n.name
  | [source, name] =>
    ((r.datasource?.filter fun d => d.name = source).bind fun d => d.space? name).map
      fun n => .space n.name
  | _ => none

def findSpace (r : Resolver) (path : Path) : Outcome :=
  match r.scope.cached? .space path with
  | some e => (.ok e, r)
  | none =>
    match r.resolveSpace? path with
    | some e => (.ok e, r.store .space path e)
    | none => (.error ⟨path, .space, .notFound⟩, r)

/-- A table by its name alone: an alias, the pivot, a table of the pivot's namespace, or the only
table of that name in the datasource. -/
def resolveTable? (r : Resolver) (name : String) : Option Element :=
  match r.scope.aliasedElement? name with
  | some (.table home aliased) => some (.table home aliased)
  | _ =>
    let here : Option Element :=
      match r.pivot with
      | .table home own => if own = name then some (.table home own) else none
      | _ => none
    let inHome := r.home?.bind fun n => (n.table? name).map fun t => Element.table (some n.name) t.name
    let anywhere := r.datasource?.bind fun d => (Hierarchy.ofList d.keyedElements).get? [name]
    here <|> inHome <|> anywhere

def tableOf? (r : Resolver) (space : Element) (name : String) : Option Element :=
  match space with
  | .space home => (r.schema.table? (some home) name).map fun t => .table (some home) t.name
  | _ => none

/-- Ends a look-up: what was found is remembered, what was not is an error of the whole path. -/
def conclude (r : Resolver) (kind : ElementKind) (path : Path) (found : Option Element) : Outcome :=
  match found with
  | some e => (.ok e, r.store kind path e)
  | none => (.error ⟨path, kind, .notFound⟩, r)

/-- Goes on from a namespace; without it the error is that of the namespace. -/
def tableIn (path : Path) (name : String) (space : Outcome) : Outcome :=
  match space with
  | (.ok e, r) => r.conclude .table path (r.tableOf? e name)
  | (.error error, r) => (.error error, r)

def findTable (r : Resolver) (path : Path) : Outcome :=
  match r.scope.cached? .table path with
  | some e => (.ok e, r)
  | none =>
    match path with
    | [name] => r.conclude .table path (r.resolveTable? name)
    | [space, name] => tableIn path name (r.findSpace (Path.parse space))
    | [source, space, name] => tableIn path name (r.findSpace [source, space])
    | _ => r.conclude .table path none

/-- The table that a column name alone refers to. -/
def defaultTable? (r : Resolver) : Option Element :=
  match r.pivot with
  | .table home name => some (.table home name)
  | .column home table _ => some (.table home table)
  | .space home =>
    match r.schema.tablesIn (some home) with
    | [t] => some (.table (some home) t.name)
    | _ => none
  | .datasource =>
    match r.datasource?.map fun d => d.tables.entries with
    | some [([home, name], _)] => some (.table (some home) name)
    | _ => none

def columnOf? (r : Resolver) (table : Element) (name : String) : Option Element :=
  match table with
  | .table home t => (r.schema.column? home t name).map fun c => .column home t c.name
  | _ => none

/-- Goes on from a table; without it the error is that of the whole path. -/
def columnIn (path : Path) (name : String) (table : Outcome) : Outcome :=
  match table with
  | (.ok e, r) => r.conclude .column path (r.columnOf? e name)
  | (.error _, r) => r.conclude .column path none

def findColumn (r : Resolver) (path : Path) : Outcome :=
  match r.scope.cached? .column path with
  | some e => (.ok e, r)
  | none =>
    match path with
    | [name] =>
      match r.scope.aliasedElement? name with
      | some (.column home table aliased) => (.ok (.column home table aliased), r)
      | _ =>
        match r.defaultTable? with
        | some table => r.conclude .column path (r.columnOf? table name)
        | none => (.error ⟨path, .column, .ambiguous⟩, r)
    | [table, name] => columnIn path name (r.findTable (Path.parse table))
    | [space, table, name] => columnIn path name (r.findTable [space, table])
    | [source, space, table, name] => columnIn path name (r.findTable [source, space, table])
    | _ => r.conclude .column path none

def findDatasource (r : Resolver) (path : Path) : Outcome :=
  match r.datasource? with
  | some d =>
    if path = [d.name] then (.ok .datasource, r) else (.error ⟨path, .datasource, .notFound⟩, r)
  | none => (.error ⟨path, .datasource, .notFound⟩, r)

def find (r : Resolver) (kind : ElementKind) (path : Path) : Outcome :=
  match kind with
  | .datasource => r.findDatasource path
  | .space => r.findSpace path
  | .table => r.findTable path
  | .column => r.findColumn path

end Resolver
end SqlFragment
