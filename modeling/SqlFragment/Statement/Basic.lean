import SqlFragment.Statement.Context

/-
Finished statements, and the values that are bound to their placeholders.
-/
namespace SqlFragment

/-- The text of a statement with its parameters in the order of their names. -/
structure Statement where
  sql : String
  parameters : List (String × Descriptor)

def Context.finish (c : Context) (sql : String) : Statement :=
  ⟨sql, c.parameters.entries.mergeSort fun a b => a.1 ≤ b.1⟩

namespace Statement

/-- The value of a parameter: the supplied one, else its default, which must be a literal. -/
def valueOf (values : List (String × Value)) (name : String) (d : Descriptor) :
    Except StatementError Value :=
  match values.lookup name, d.default with
  | some v, _ => .ok v
  | none, some (.literal v _) => .ok v
  | none, some e => .error (.defaultNotValue name e)
  | none, none => .error (.noValue name)

/-- Values by the key that `keys` gives for each place of a parameter, in the order of the keys. -/
def valuesBy (s : Statement) (values : List (String × Value)) (keys : Descriptor → List Nat) :
    Except StatementError (List Value) := do
  let places ← s.parameters.mapM fun (name, d) => do
    let v ← valueOf values name d
    return (keys d).map fun key => (key, v)
  return (places.flatten.mergeSort fun a b => a.1 ≤ b.1).map Prod.snd

def positionalValues (s : Statement) (values : List (String × Value)) :
    Except StatementError (List Value) :=
  s.valuesBy values Descriptor.positions

def ordinalValues (s : Statement) (values : List (String × Value)) :
    Except StatementError (List Value) :=
  s.valuesBy values fun d => [d.ordinal]

end Statement
end SqlFragment
