/-
Names that are free and well formed.
-/
namespace SqlFragment.Naming

/-- The candidates after the name itself: a number behind an underscore, or the number alone when
there is no name. -/
def numbered (name : String) (i : Nat) : String :=
  if name.isEmpty then toString i else name ++ "_" ++ toString i

/-- The name itself when it is free, else the first numbered one. One of the first numbers is free,
because there are more of them than names in use. -/
def fresh (name : String) (existing : List String) : String :=
  if !name.isEmpty && !existing.contains name then name
  else
    (((List.range (existing.length + 1)).map (numbered name)).find? fun candidate =>
      !existing.contains candidate).getD name

/-- Replaces characters that names may not hold by underscores, and puts a letter in front when the
first one may not begin a name. -/
def sanitize (name : String) (isStart isPart : Char → Bool) : String :=
  let cs := name.toList.map fun c => if isPart c then c else '_'
  match cs with
  | c :: _ => if isStart c then String.ofList cs else String.ofList ('p' :: cs)
  | [] => "p"

end SqlFragment.Naming
