import SqlFragment.Schema.Basic

/-
Declared schemas and the checks that a declaration passes before it becomes a schema. The checks are
made in a fixed order and the first one that fails is reported.
-/
namespace SqlFragment

inductive SchemaError where
  | emptyName (kind : ElementKind)
  | duplicateName (kind : ElementKind) (name : String)
  | duplicateConstraint (table : String)
  | noColumn (constraint : String)
  | unknownColumn (constraint : String) (table : Path) (column : String)
  | columnCount (constraint : String) (own referenced : Nat)
  | severalPrimaryKeys (table : String)
  | unknownTable (constraint : String) (table : Path)
deriving DecidableEq

namespace SchemaError

/-- Errors of names, as opposed to errors of constraints. -/
def isName : SchemaError → Bool
  | emptyName _ | duplicateName .. => true
  | _ => false

def reason : SchemaError → String
  | emptyName kind => "empty " ++ kind.name ++ " name is invalid"
  | duplicateName kind name => kind.name ++ " " ++ name ++ " is declared twice"
  | duplicateConstraint table => "duplicate constraint name in " ++ table
  | noColumn constraint => constraint ++ " has no column"
  | unknownColumn constraint table column =>
    constraint ++ " references the unknown column " ++ table.display ++ "." ++ column
  | columnCount constraint own referenced =>
    s!"{constraint} maps {own} columns onto {referenced}"
  | severalPrimaryKeys table => table ++ " has several primary keys"
  | unknownTable constraint table =>
    constraint ++ " references the unknown table " ++ table.display

def message (e : SchemaError) : String :=
  (if e.isName then "InvalidName: " else "InvalidConstraint: ") ++ e.reason ++ "\n"

end SchemaError

structure ColumnDeclaration where
  name : String
  type : DataType := .undefined
  /-- When nothing is said, columns outside the primary key are nullable. -/
  nullable : Option Bool := none
  autoIncrement : Bool := false
  default : Option Value := none

structure TableDeclaration where
  name : String
  isView : Bool := false
  columns : List ColumnDeclaration := []
  constraints : List Constraint := []

structure NamespaceDeclaration where
  name : String
  tables : List TableDeclaration := []

structure DatasourceDeclaration where
  name : String
  spaces : List NamespaceDeclaration := []

inductive Declaration where
  | datasource (d : DatasourceDeclaration)
  | space (n : NamespaceDeclaration)
  | table (t : TableDeclaration)

/-- Names of one kind are not empty and differ from those before them. -/
def checkNames (kind : ElementKind) (seen : List String) : List String → Except SchemaError Unit
  | [] => .ok ()
  | name :: names =>
    if name.isEmpty then .error (.emptyName kind)
    else if seen.contains name then .error (.duplicateName kind name)
    else checkNames kind (name :: seen) names

namespace TableDeclaration

def hasColumn (t : TableDeclaration) (name : String) : Bool := t.columns.any fun c => c.name = name

def checkConstraint (t : TableDeclaration) (c : Constraint) : Except SchemaError Unit :=
  if c.columns.isEmpty then .error (.noColumn c.name)
  else
    match c.columns.find? fun name => !t.hasColumn name with
    | some missing => .error (.unknownColumn c.name [t.name] missing)
    | none =>
      match c.kind with
      | .foreignKey _ columns =>
        if columns.length = c.columns.length then .ok ()
        else .error (.columnCount c.name c.columns.length columns.length)
      | _ => .ok ()

def check (t : TableDeclaration) : Except SchemaError Unit := do
  checkNames .table [] [t.name]
  checkNames .column [] (t.columns.map ColumnDeclaration.name)
  (checkNames .table [] (t.constraints.map Constraint.name)).mapError
    fun _ => .duplicateConstraint t.name
  t.constraints.forM t.checkConstraint
  if 1 < t.constraints.countP Constraint.isPrimaryKey then throw (.severalPrimaryKeys t.name)

def keyColumns (t : TableDeclaration) : List String :=
  (t.constraints.filter Constraint.isPrimaryKey).flatMap Constraint.columns

def build (t : TableDeclaration) : Table :=
  { name := t.name
    isView := t.isView
    columns := t.columns.map fun c =>
      { name := c.name
        type := c.type
        nullable := c.nullable.getD !(t.keyColumns.contains c.name)
        autoIncrement := c.autoIncrement
        default := c.default }
    constraints := t.constraints }

end TableDeclaration

namespace NamespaceDeclaration

def check (n : NamespaceDeclaration) : Except SchemaError Unit := do
  checkNames .space [] [n.name]
  checkNames .table [] (n.tables.map TableDeclaration.name)
  n.tables.forM TableDeclaration.check

def build (n : NamespaceDeclaration) : Namespace := ⟨n.name, n.tables.map TableDeclaration.build⟩

end NamespaceDeclaration

namespace DatasourceDeclaration

def keyed {α : Type} (d : DatasourceDeclaration) (f : String → TableDeclaration → α) :
    List (Path × α) :=
  d.spaces.flatMap fun n => n.tables.map fun t => ([n.name, t.name], f n.name t)

def tables (d : DatasourceDeclaration) : Hierarchy TableDeclaration := .ofList (d.keyed fun _ t => t)

/-- The table that a path refers to from within a namespace, which goes before all others. -/
def referenced? (d : DatasourceDeclaration) (space : String) (path : Path) :
    Option TableDeclaration :=
  d.tables.get? (space :: path) <|> d.tables.get? path

def checkReference (d : DatasourceDeclaration) (space : String) (c : Constraint) :
    Except SchemaError Unit :=
  match c.kind with
  | .foreignKey path columns =>
    match d.referenced? space path with
    | none => .error (.unknownTable c.name path)
    | some table =>
      match columns.find? fun name => !table.hasColumn name with
      | some missing => .error (.unknownColumn c.name path missing)
      | none => .ok ()
  | _ => .ok ()

/-- Every foreign key refers to a declared table that has the columns. -/
def checkReferences (d : DatasourceDeclaration) : Except SchemaError Unit :=
  d.spaces.forM fun n => n.tables.forM fun t => t.constraints.forM (d.checkReference n.name)

def check (d : DatasourceDeclaration) : Except SchemaError Unit := do
  checkNames .datasource [] [d.name]
  checkNames .space [] (d.spaces.map NamespaceDeclaration.name)
  d.spaces.forM NamespaceDeclaration.check
  d.checkReferences

def build (d : DatasourceDeclaration) : Datasource :=
  ⟨d.name, d.spaces.map NamespaceDeclaration.build⟩

end DatasourceDeclaration

namespace Declaration

def check : Declaration → Except SchemaError Unit
  | datasource d => d.check
  | space n => n.check
  | table t => t.check

def build (d : Declaration) : Except SchemaError Schema := do
  d.check
  match d with
  | datasource d => return .ofDatasource d.build
  | space n => return .ofNamespace n.build
  | table t => return .ofTable t.build

end Declaration
end SqlFragment
