import SqlFragment.Double.Basic

/-
Documents of nested data. Objects keep the order in which their entries were written.
-/
namespace SqlFragment

/-- Nested data as documents carry it. A number is an integer when it is written as one. -/
inductive Json where
  | null
  | boolean (b : Bool)
  | integer (n : Int)
  | float (x : Double)
  | text (s : String)
  | array (items : List Json)
  | object (entries : List (String × Json))

namespace Json

def get? (key : String) : Json → Option Json
  | object entries => (entries.find? fun entry => entry.1 = key).map Prod.snd
  | _ => none

/-- Sets the entry of a key. A key that is there keeps its place, a new one comes last. -/
def setEntry (key : String) (item : Json) : List (String × Json) → List (String × Json)
  | [] => [(key, item)]
  | (other, old) :: entries =>
    if other = key then (key, item) :: entries else (other, old) :: setEntry key item entries

end Json
end SqlFragment
