import SqlFragment.Schema.Basic

/-
Scopes of name resolution. A scope has a pivot, the element that short paths start from, its own
aliases, and a cache of the paths that were found. Scopes are stacked; an inner one starts empty and
leaves the outer ones untouched.

Elements are names in one schema, which all scopes and aliases of a resolver share and which is there
as long as the resolver is. So a pivot or an alias cannot be an element of another schema, and an
element never outlives what it is part of: its parents are found whenever the schema has them.
-/
namespace SqlFragment

/-- A derived table. Without columns it accepts any. -/
structure TableReference where
  name : String
  columns : List String
deriving DecidableEq

def TableReference.hasColumn (t : TableReference) (column : String) : Bool :=
  t.columns.isEmpty || t.columns.contains column

structure ColumnReference where
  name : String
  type : DataType
deriving DecidableEq

inductive Alias where
  | element (e : Element)
  | table (t : TableReference)
  | column (c : ColumnReference)
deriving DecidableEq

structure Scope where
  pivot : Element
  cache : List ((ElementKind × Path) × Element) := []
  aliases : List (String × Alias) := []
deriving DecidableEq

namespace Scope

def cached? (s : Scope) (kind : ElementKind) (path : Path) : Option Element :=
  (s.cache.find? fun entry => entry.1 = (kind, path)).map Prod.snd

def alias? (s : Scope) (name : String) : Option Alias :=
  (s.aliases.find? fun entry => entry.1 = name).map Prod.snd

def isAlias (s : Scope) (name : String) : Bool := (s.alias? name).isSome

def aliasedElement? (s : Scope) (name : String) : Option Element :=
  match s.alias? name with
  | some (.element e) => some e
  | _ => none

/-- Remembers a resolution, unless the path begins with an alias. -/
def store (s : Scope) (kind : ElementKind) (path : Path) (e : Element) : Scope :=
  if path.head?.any s.isAlias then s
  else
    let key := (kind, path)
    { s with cache := (key, e) :: s.cache.filter fun entry => entry.1 ≠ key }

/-- Sets an alias. Paths that begin with it are no longer served from the cache. -/
def setAlias (s : Scope) (name : String) (a : Alias) : Scope :=
  { s with
    cache := s.cache.filter fun entry => entry.1.2.head? ≠ some name
    aliases := (name, a) :: s.aliases.filter fun entry => entry.1 ≠ name }

end Scope

/-- The current scope over those it is nested in, on one schema. -/
structure Resolver where
  schema : Schema
  scope : Scope
  outer : List Scope := []

namespace Resolver

def new (schema : Schema) (pivot : Element) : Resolver := ⟨schema, { pivot }, []⟩

def pivot (r : Resolver) : Element := r.scope.pivot

def depth (r : Resolver) : Nat := r.outer.length

def push (r : Resolver) (pivot : Element) : Resolver :=
  { r with scope := { pivot }, outer := r.scope :: r.outer }

/-- Closes the current scope; the first one stays open. -/
def pop? (r : Resolver) : Option Resolver :=
  match r.outer with
  | [] => none
  | scope :: outer => some { r with scope, outer }

def setAlias (r : Resolver) (name : String) (a : Alias) : Resolver :=
  { r with scope := r.scope.setAlias name a }

def store (r : Resolver) (kind : ElementKind) (path : Path) (e : Element) : Resolver :=
  { r with scope := r.scope.store kind path e }

end Resolver
end SqlFragment
