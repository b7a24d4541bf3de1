import SqlFragment.Path

/-
Maps from paths to objects in which the end of a path is enough to find an object, as long as only
one path ends like that. Entries are held in the order of their paths.
-/
namespace SqlFragment

structure Hierarchy (α : Type) where
  entries : List (Path × α)

namespace Hierarchy
variable {α : Type}

/-- Adds an entry at its place; an entry of the same path is replaced. -/
def insertEntry (path : Path) (a : α) : List (Path × α) → List (Path × α)
  | [] => [(path, a)]
  | (other, b) :: rest =>
    if other = path then (path, a) :: rest
    else if path < other then (path, a) :: (other, b) :: rest
    else (other, b) :: insertEntry path a rest

def insert (h : Hierarchy α) (path : Path) (a : α) : Hierarchy α := ⟨insertEntry path a h.entries⟩

def empty : Hierarchy α := ⟨[]⟩

/-- The entries of a list, later ones replacing earlier ones of the same path. -/
def ofList (entries : List (Path × α)) : Hierarchy α :=
  entries.foldl (fun h (path, a) => h.insert path a) empty

def size (h : Hierarchy α) : Nat := h.entries.length

/-- What has been found so far: nothing, one thing, or too many to tell. -/
inductive Found (β : Type) where
  | zero
  | one (b : β)
  | more

def Found.another {β : Type} (b : β) : Found β → Found β
  | zero => one b
  | _ => more

def Found.toOption {β : Type} : Found β → Option β
  | one b => some b
  | _ => none

/-- Whether a path is the end of another one. It must not be the longer one, and from the last on
their segments are the same as long as both have some. -/
def isEndOf (path key : Path) : Bool :=
  path.length ≤ key.length && (path.reverse.zip key.reverse).all fun (s, t) => s == t

def tally (path : Path) (found : Found (Path × α)) (entry : Path × α) : Found (Path × α) :=
  if isEndOf path entry.1 then found.another entry else found

/-- The entry of exactly this path, else that of the only path that ends in it. -/
def find? (h : Hierarchy α) (path : Path) : Option (Path × α) :=
  h.entries.find? (fun entry => entry.1 = path) <|>
    (h.entries.foldl (tally path) Found.zero).toOption

def get? (h : Hierarchy α) (path : Path) : Option α := (h.find? path).map Prod.snd

/-- How many paths end in `path`. -/
def matching (h : Hierarchy α) (path : Path) : Nat :=
  ((h.entries.map Prod.fst).filter fun key => isEndOf path key).length

def display (h : Hierarchy α) (text : α → String) : String :=
  "\x7b\n  " ++
    ",\n  ".intercalate (h.entries.map fun (path, a) => path.display ++ " -> " ++ text a) ++
    ",\n\x7d"

end Hierarchy
end SqlFragment
