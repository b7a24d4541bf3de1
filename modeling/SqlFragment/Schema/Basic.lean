import SqlFragment.Hierarchy
import SqlFragment.Value.Basic

/-
Schemas: a datasource holds namespaces, a namespace holds tables, a table holds columns and
constraints. A schema may also be a namespace or a table that stands alone. Names are unique among
the children of an element, so that an element is told by the names that lead to it.
-/
namespace SqlFragment

inductive ElementKind where
  | datasource
  | space
  | table
  | column
deriving DecidableEq, Repr

def ElementKind.name : ElementKind → String
  | .datasource => "datasource"
  | .space => "namespace"
  | .table => "table"
  | .column => "column"

structure Column where
  name : String
  type : DataType
  nullable : Bool
  autoIncrement : Bool
  default : Option Value
deriving DecidableEq

/-- What may change in a column. A default is set to a value or removed. -/
structure ColumnChange where
  nullable : Option Bool := none
  autoIncrement : Option Bool := none
  default : Option (Option Value) := none

def Column.change (c : Column) (change : ColumnChange) : Column :=
  { c with
    nullable := change.nullable.getD c.nullable
    autoIncrement := change.autoIncrement.getD c.autoIncrement
    default := change.default.getD c.default }

inductive ConstraintKind where
  | primaryKey
  | unique
  /-- The columns refer, one by one, to `columns` of `table`. -/
  | foreignKey (table : Path) (columns : List String)
deriving DecidableEq

structure Constraint where
  name : String
  columns : List String
  kind : ConstraintKind
deriving DecidableEq

namespace Constraint

/-- The name of a primary key that is given none. -/
def primaryName : String := "PRIMARY"

def isPrimaryKey (c : Constraint) : Bool := c.kind = .primaryKey

def isUnique (c : Constraint) : Bool := c.kind = .primaryKey || c.kind = .unique

def contains (c : Constraint) (column : String) : Bool := c.columns.contains column

def referencedTable? (c : Constraint) : Option Path :=
  match c.kind with
  | .foreignKey table _ => some table
  | _ => none

def mapping (c : Constraint) : List (String × String) :=
  match c.kind with
  | .foreignKey _ columns => c.columns.zip columns
  | _ => []

end Constraint

structure Table where
  name : String
  /-- A view is a named query. -/
  isView : Bool
  columns : List Column
  constraints : List Constraint
deriving DecidableEq

namespace Table

def column? (t : Table) (name : String) : Option Column := t.columns.find? fun c => c.name = name

def primaryKey? (t : Table) : Option Constraint := t.constraints.find? Constraint.isPrimaryKey

def foreignKeys (t : Table) : List Constraint :=
  t.constraints.filter fun c => c.referencedTable?.isSome

def inPrimaryKey (t : Table) (column : String) : Bool :=
  match t.primaryKey? with
  | some key => key.contains column
  | none => false

end Table

structure Namespace where
  name : String
  tables : List Table
deriving DecidableEq

def Namespace.table? (n : Namespace) (name : String) : Option Table :=
  n.tables.find? fun t => t.name = name

structure Datasource where
  name : String
  spaces : List Namespace
deriving DecidableEq

namespace Datasource

def space? (d : Datasource) (name : String) : Option Namespace :=
  d.spaces.find? fun n => n.name = name

/-- What `f` makes of each table and the name of its namespace, under the path of the table. -/
def keyed {α : Type} (d : Datasource) (f : String → Table → α) : List (Path × α) :=
  d.spaces.flatMap fun n => n.tables.map fun t => ([n.name, t.name], f n.name t)

def keyedTables (d : Datasource) : List (Path × Table) := d.keyed fun _ t => t

def tables (d : Datasource) : Hierarchy Table := .ofList d.keyedTables

end Datasource

inductive Schema where
  | ofDatasource (d : Datasource)
  | ofNamespace (n : Namespace)
  | ofTable (t : Table)
deriving DecidableEq

/-- An element of a schema, told by the names that lead to it; a table that stands alone has no
namespace. -/
inductive Element where
  | datasource
  | space (name : String)
  | table (space : Option String) (name : String)
  | column (space : Option String) (table name : String)
deriving DecidableEq

namespace Element

def kind : Element → ElementKind
  | datasource => .datasource
  | space _ => .space
  | table .. => .table
  | column .. => .column

/-- The qualified path of an element, which begins with its namespace. -/
def path : Element → Path
  | datasource => []
  | space name => [name]
  | table home name => home.toList ++ [name]
  | column home host name => home.toList ++ [host, name]

def space? : Element → Option String
  | datasource => none
  | space name => some name
  | table home _ => home
  | column home .. => home

end Element

def Datasource.keyedElements (d : Datasource) : List (Path × Element) :=
  d.keyed fun home t => .table (some home) t.name

namespace Schema

def datasource? : Schema → Option Datasource
  | ofDatasource d => some d
  | _ => none

def root : Schema → Element
  | ofDatasource _ => .datasource
  | ofNamespace n => .space n.name
  | ofTable t => .table none t.name

def spaces : Schema → List Namespace
  | ofDatasource d => d.spaces
  | ofNamespace n => [n]
  | ofTable _ => []

def space? (s : Schema) (name : String) : Option Namespace :=
  s.spaces.find? fun n => n.name = name

/-- The tables of a namespace, or the one that stands alone. -/
def tablesIn (s : Schema) : Option String → List Table
  | some space =>
    match s.space? space with
    | some n => n.tables
    | none => []
  | none =>
    match s with
    | ofTable t => [t]
    | _ => []

def table? (s : Schema) (space : Option String) (name : String) : Option Table :=
  (s.tablesIn space).find? fun t => t.name = name

def column? (s : Schema) (space : Option String) (table name : String) : Option Column :=
  (s.table? space table).bind fun t => t.column? name

def holds (s : Schema) : Element → Bool
  | .datasource => s.datasource?.isSome
  | .space name => (s.space? name).isSome
  | .table space name => (s.table? space name).isSome
  | .column space table name => (s.column? space table name).isSome

def elementName (s : Schema) : Element → String
  | .datasource =>
    match s.datasource? with
    | some d => d.name
    | none => ""
  | .space name | .table _ name | .column _ _ name => name

def parent? (s : Schema) : Element → Option Element
  | .datasource => none
  | .space _ => s.datasource?.map fun _ => .datasource
  | .table space _ => space.map .space
  | .column space table _ => some (.table space table)

def elementText (s : Schema) (e : Element) : String := e.kind.name ++ " " ++ s.elementName e

/-- The path of an element; a datasource goes by its name. -/
def qualifiedName (s : Schema) : Element → String
  | .datasource => s.elementName .datasource
  | e => e.path.display

def columnAt? (s : Schema) : Element → Option (Table × Column)
  | .column space table name => do
    let t ← s.table? space table
    let c ← t.column? name
    return (t, c)
  | _ => none

def child? (s : Schema) (e : Element) (name : String) : Option Element :=
  let child : Option Element :=
    match e with
    | .datasource => some (.space name)
    | .space n => some (.table (some n) name)
    | .table space t => some (.column space t name)
    | .column .. => none
  child.filter s.holds

/-- The element at the end of a list of child names that begins at the root. -/
def descend? (s : Schema) (names : List String) : Option Element :=
  names.foldlM s.child? s.root

def mapNamed (table : String) (f : Table → Table) (n : Namespace) : Namespace :=
  { n with tables := n.tables.map fun t => if t.name = table then f t else t }

def mapTable (space : Option String) (table : String) (f : Table → Table) : Schema → Schema
  | ofDatasource d =>
    let change := fun n : Namespace => if space = some n.name then mapNamed table f n else n
    .ofDatasource { d with spaces := d.spaces.map change }
  | ofNamespace n => .ofNamespace (if space = some n.name then mapNamed table f n else n)
  | ofTable t => .ofTable (if space = none ∧ t.name = table then f t else t)

def changeColumn (e : Element) (change : ColumnChange) (s : Schema) : Schema :=
  match e with
  | .column space table name =>
    let update := fun c : Column => if c.name = name then c.change change else c
    s.mapTable space table fun t => { t with columns := t.columns.map update }
  | _ => s

end Schema
end SqlFragment
