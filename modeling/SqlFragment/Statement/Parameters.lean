import SqlFragment.Dialect.Basic
import SqlFragment.Expr.Basic

/-
The bind parameters of a statement: the names they are written with, and every place where they
occur.
-/
namespace SqlFragment

structure Descriptor where
  normalizedName : String
  /-- From one, in the order of the first occurrences. -/
  ordinal : Nat
  positions : List Nat := []
  default : Option Expr := none

/-- The parameters in the order of their first occurrences, and the number of placeholders. -/
structure Parameters where
  entries : List (String × Descriptor) := []
  occurrences : Nat := 0

namespace Parameters

def get? (p : Parameters) (name : String) : Option Descriptor :=
  (p.entries.find? fun entry => entry.1 = name).map Prod.snd

def size (p : Parameters) : Nat := p.entries.length

def normalizedNames (p : Parameters) : List String :=
  p.entries.map fun entry => entry.2.normalizedName

def modify (p : Parameters) (name : String) (f : Descriptor → Descriptor) : Parameters :=
  { p with entries := p.entries.map fun (n, d) => if n = name then (n, f d) else (n, d) }

/-- The name that a new parameter is written with: its own when it is well formed and free. -/
def nameFor (p : Parameters) (d : Dialect) (name : String) : Except DialectError String :=
  let taken := p.normalizedNames
  if d.isParameterName name && !taken.contains name then .ok name else d.normalizeName name taken

def register (p : Parameters) (d : Dialect) (name : String) :
    Except DialectError (Descriptor × Parameters) :=
  match p.get? name with
  | some descriptor => .ok (descriptor, p)
  | none => do
    let normalized ← p.nameFor d name
    let descriptor : Descriptor := { normalizedName := normalized, ordinal := p.size + 1 }
    return (descriptor, { p with entries := p.entries ++ [(name, descriptor)] })

def occur (p : Parameters) (d : Dialect) (name : String) :
    Except DialectError (String × Parameters) := do
  let (descriptor, p) ← p.register d name
  let recorded := p.modify name fun d => { d with positions := d.positions ++ [p.occurrences] }
  return (d.placeholder descriptor.normalizedName ⟨p.occurrences, descriptor.ordinal⟩,
    { recorded with occurrences := p.occurrences + 1 })

/-- Sets what is bound when no value is supplied; only parameters that occur have a default. -/
def setDefault? (p : Parameters) (name : String) (e : Expr) : Option Parameters :=
  (p.get? name).map fun _ => p.modify name fun d => { d with default := some e }

end Parameters
end SqlFragment
