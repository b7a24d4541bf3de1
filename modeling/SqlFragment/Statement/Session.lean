import SqlFragment.Statement.Context

/-
Sessions: the steps that change a context, one after the other. A step that fails answers its error
and the session goes on.
-/
namespace SqlFragment

inductive Step where
  | compile (input : Input)
  | render (e : Expr)
  | renderKeeping (e : Expr)
  | parameter (name : String)
  | setDefault (name : String) (e : Expr)
  | reset
  | find (kind : ElementKind) (path : Path)
  | invoke (name : String) (arguments : List Value)
  | setAlias (name : String) (a : Alias)
  | push (pivot : Element)
  | pop
  | literal (v : Value) (t : DataType)
  | columnType (t : DataType)
  | columnDefinition (column : Column)

inductive Answer where
  | none
  | text (s : String)
  | value (v : Value)
  | element (e : Element)

namespace Context

def act : Step → Action Answer
  | .compile input => .text <$> compile input
  | .render e => .text <$> render e
  | .renderKeeping e => .text <$> renderKeeping e
  | .parameter name => .text <$> parameter name
  | .setDefault name e => setDefault name e *> pure .none
  | .reset => reset *> pure .none
  | .find kind path => .element <$> find kind path
  | .invoke name arguments => .value <$> invoke name arguments
  | .setAlias name a => setAlias name a *> pure .none
  | .push pivot => push pivot *> pure .none
  | .pop => pop *> pure .none
  | .literal v t => .text <$> literal v t
  | .columnType t => .text <$> columnType t
  | .columnDefinition column => .text <$> columnDefinition column

def step (c : Context) (s : Step) : Except StatementError Answer × Context := c.run (act s)

def runAll (c : Context) : List Step → List (Except StatementError Answer) × Context
  | [] => ([], c)
  | s :: steps =>
    let (answer, c) := c.step s
    let (answers, c) := c.runAll steps
    (answer :: answers, c)

end Context
end SqlFragment
