import SqlFragment.Dialect.Writer
import SqlFragment.Input
import SqlFragment.Resolver.Lookup
import SqlFragment.Statement.Parameters

/-
The state in which the expressions of one statement are compiled: a writer for the dialect, a
resolver on the schema, a grammar, and the parameters that occurred so far.
-/
namespace SqlFragment

inductive StatementError where
  | evaluation (e : EvaluationError)
  | resolution (e : ResolutionError)
  | dialect (e : DialectError)
  /-- A default for a parameter that does not occur. -/
  | unusedParameter (name : String)
  | noValue (name : String)
  | defaultNotValue (name : String) (e : Expr)
  | expectsPath (capability : String)
  | expectsName
  | noCapability (name : String)
  /-- The first scope cannot be closed. -/
  | firstScope

namespace StatementError

def message : StatementError → String
  | evaluation e => e.message
  | resolution e => e.message
  | dialect e =>
    match e with
    | .parameterName _ => "ParameterError: " ++ e.reason ++ "\n"
    | _ => "EvaluationError: " ++ e.reason ++ "\n"
  | unusedParameter name => "ParameterError: " ++ name ++ " does not occur in the statement\n"
  | noValue name => "ParameterError: no value for " ++ name ++ "\n"
  | defaultNotValue name e =>
    "ParameterError: the default of " ++ name ++ " is not a value: " ++ e.display ++ "\n"
  | expectsPath capability => "EvaluationError: " ++ capability ++ " expects a path\n"
  | expectsName => "EvaluationError: is_alias expects a name\n"
  | noCapability name => "CapabilityError: no such capability: " ++ name ++ "\n"
  | firstScope => "cannot pop the root resolver context"

end StatementError

structure Context where
  writer : Writer
  resolver : Resolver
  grammar : Grammar
  parameters : Parameters := {}

/-- An action on a context that may fail. The context after a failure is kept. -/
abbrev Action := ExceptT StatementError (StateM Context)

namespace Context

def run {α : Type} (c : Context) (action : Action α) : Except StatementError α × Context :=
  StateT.run (ExceptT.run action) c

/-- The placeholder of one more occurrence of a parameter. -/
def parameter (name : String) : Action String := do
  let c ← get
  match c.parameters.occur c.writer.dialect name with
  | .ok (placeholder, parameters) =>
    set { c with parameters }
    return placeholder
  | .error e => throw (.dialect e)

def find (kind : ElementKind) (path : Path) : Action Element := do
  let c ← get
  let (outcome, resolver) := c.resolver.find kind path
  set { c with resolver }
  match outcome with
  | .ok e => return e
  | .error e => throw (.resolution e)

def ofDialect {α : Type} (outcome : Except DialectError α) : Action α :=
  match outcome with
  | .ok a => return a
  | .error e => throw (.dialect e)

def literal (v : Value) (t : DataType) : Action String := do
  let c ← get
  ofDialect (c.writer.literal v t)

/-- A column reference, checked and quoted. Columns of derived tables and computed columns are
checked against their aliases; the name of the datasource is no part of a name in SQL. -/
def renderColumn (path : Path) : Action String := do
  let c ← get
  let quoted := c.writer.dialect.escapePath path
  match path, path.head?.bind c.resolver.scope.alias? with
  | [_, name], some (.table t) =>
    if t.hasColumn name then return quoted else throw (.resolution ⟨path, .column, .notFound⟩)
  | [_], some (.column _) => return quoted
  | _, _ =>
    let e ← find .column path
    if path.length = 4 then return c.writer.dialect.escapePath e.path else return quoted

def renderTable (path : Path) : Action String := do
  let c ← get
  let quoted := c.writer.dialect.escapePath path
  match path, path.head?.bind c.resolver.scope.alias? with
  | [_], some (.table _) => return quoted
  | _, _ =>
    let e ← find .table path
    if path.length = 3 then return c.writer.dialect.escapePath e.path else return quoted

def writeLeaf : Expr.Leaf → Action String
  | .literal v t => literal v t
  | .parameter name => parameter name
  | .column path => renderColumn path
  | .table path => renderTable path

/-- An expression in the dialect. When it fails, the parameters that occurred on the way stay
recorded. -/
def renderKeeping (e : Expr) : Action String := do
  let filled ← e.fill writeLeaf
  return filled.display

/-- An expression in the dialect. When it fails, the parameters are as they were. -/
def render (e : Expr) : Action String := do
  let before := (← get).parameters
  try renderKeeping e
  catch error =>
    modify fun c => { c with parameters := before }
    throw error

def evaluate (input : Input) : Action Expr := do
  let c ← get
  match c.grammar.evaluate input with
  | .ok e => return e
  | .error e => throw (.evaluation e)

def compile (input : Input) : Action String := do
  let e ← evaluate input
  render e

def reset : Action Unit := modify fun c => { c with parameters := {} }

def setDefault (name : String) (e : Expr) : Action Unit := do
  let c ← get
  match c.parameters.setDefault? name e with
  | some parameters => set { c with parameters }
  | none => throw (.unusedParameter name)

def setAlias (name : String) (a : Alias) : Action Unit :=
  modify fun c => { c with resolver := c.resolver.setAlias name a }

def push (pivot : Element) : Action Unit :=
  modify fun c => { c with resolver := c.resolver.push pivot }

def pop : Action Unit := do
  let c ← get
  match c.resolver.pop? with
  | some resolver => set { c with resolver }
  | none => throw .firstScope

def outcome {α : Type} (action : Action α) : Action (Except StatementError α) :=
  try Except.ok <$> action
  catch error => return .error error

/-- Runs an action in a scope of its own, which is closed whatever the action does. -/
def inScope {α : Type} (pivot : Element) (action : Action α) : Action α := do
  push pivot
  let result ← outcome action
  pop
  match result with
  | .ok a => return a
  | .error error => throw error

def columnType (t : DataType) : Action String := do
  let c ← get
  ofDialect (c.writer.dialect.columnType t)

def columnDefinition (column : Column) : Action String := do
  let c ← get
  ofDialect (c.writer.columnDefinition column)

def changeColumn (e : Element) (change : ColumnChange) : Action Unit :=
  modify fun c =>
    { c with resolver := { c.resolver with schema := c.resolver.schema.changeColumn e change } }

def pathArgument (capability : String) (arguments : List Value) : Action Path :=
  match arguments with
  | .text path :: _ => return Path.parse path
  | _ => throw (.expectsPath capability)

def findNamed (kind : ElementKind) (capability : String) (arguments : List Value) :
    Action Value := do
  let path ← pathArgument capability arguments
  let e ← find kind path
  return .text e.path.display

/-- Calls a capability by name: those of the writer first, then those of the resolver. -/
def invoke (name : String) (arguments : List Value) : Action Value := do
  let c ← get
  match c.writer.invoke? name arguments with
  | some outcome => ofDialect outcome
  | none =>
    match name with
    | "find_column" => findNamed .column name arguments
    | "find_table" => findNamed .table name arguments
    | "find_namespace" => findNamed .space name arguments
    | "is_alias" =>
      match arguments with
      | .text a :: _ => return .boolean (c.resolver.scope.isAlias a)
      | _ => throw .expectsName
    | _ => throw (.noCapability name)

end Context
end SqlFragment
