/-
Dotted paths such as `namespace.table.column`.
-/
namespace SqlFragment

abbrev Path := List String

inductive PathError where
  | tooShort
deriving DecidableEq

def PathError.message : PathError → String
  | .tooShort => "InvalidExpression: Identifier too short is invalid\n"

namespace Path

/-- The pieces of a text between the places where `mark` stands; there is always one. -/
def splitChars (mark : Char) : List Char → List (List Char)
  | [] => [[]]
  | c :: rest =>
    if c = mark then [] :: splitChars mark rest
    else
      match splitChars mark rest with
      | [] => [[c]]
      | piece :: pieces => (c :: piece) :: pieces

/-- Splits a text at its dots; the empty text is the empty path. -/
def parse (text : String) : Path :=
  if text.isEmpty then [] else (splitChars '.' text.toList).map String.ofList

def display (path : Path) : String := ".".intercalate path

def name? (path : Path) : Option String := path.getLast?

def parent (path : Path) : Path := path.dropLast

def head (path : Path) : Except PathError String :=
  match path with
  | [] => .error .tooShort
  | segment :: _ => .ok segment

def tail (path : Path) : Except PathError Path :=
  match path with
  | [] => .error .tooShort
  | _ :: rest => .ok rest

end Path
end SqlFragment
