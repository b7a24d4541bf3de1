import SqlFragment.Schema.Basic

/-
A schema as an indented outline, in plain text or with the colours of a terminal.
-/
namespace SqlFragment

/-- How a piece of text is set off on a terminal. -/
structure Style where
  bold : Bool
  color : Option Nat

namespace Style

def heading : Style := ⟨true, some 34⟩

def title : Style := ⟨true, some 31⟩

def strong : Style := ⟨true, none⟩

def type : Style := ⟨false, some 32⟩

def flag : Style := ⟨false, some 34⟩

def arrow : Style := ⟨false, some 33⟩

def opening (style : Style) : String :=
  let codes := (if style.bold then ["1"] else []) ++ style.color.toList.map toString
  "\x1b[" ++ ";".intercalate codes ++ "m"

def closing : String := "\x1b[0m"

/-- Puts the opening sequence again after each closing one inside a text. -/
def reopen (opening : List Char) : List Char → List Char
  | [] => []
  | c :: rest =>
    if closing.toList.isPrefixOf (c :: rest) then
      c :: (rest.take 3 ++ opening ++ reopen opening (rest.drop 3))
    else c :: reopen opening rest
termination_by cs => cs.length
decreasing_by
  · simp only [List.length_drop, List.length_cons]; omega
  · simp only [List.length_cons]; omega

end Style

/-- Sets off a text when colours are wanted. -/
def paint (colored : Bool) (style : Style) (text : String) : String :=
  if colored then
    style.opening ++ String.ofList (Style.reopen style.opening.toList text.toList) ++ Style.closing
  else text

/-- A line without its end of line, which may begin with a carriage return. -/
def chomp (line : List Char) : List Char :=
  match line.getLast? with
  | some '\r' => line.dropLast
  | _ => line

/-- The lines of a text; an end of line at the end opens no further line. -/
def linesOf (text : String) : List String :=
  let pieces := Path.splitChars '\n' text.toList
  let last := pieces.getLastD []
  (pieces.dropLast.map chomp ++ (if last.isEmpty then [] else [last])).map String.ofList

def indent (text : String) : String :=
  "\n".intercalate ((linesOf text).map ("  " ++ ·))

def Column.outline (colored : Bool) (c : Column) : String :=
  paint colored .strong c.name ++ " " ++ paint colored .type c.type.name ++
    (if c.nullable then "" else " " ++ paint colored .flag "NOT NULL") ++
    (if c.autoIncrement then " " ++ paint colored .flag "AUTO INCREMENT" else "") ++
    match c.default with
    | some v => " " ++ paint colored .flag "DEFAULT" ++ " " ++ v.display
    | none => ""

def Constraint.outline (colored : Bool) (c : Constraint) : String :=
  let columns := "(" ++ ", ".intercalate c.columns ++ ")"
  match c.kind with
  | .primaryKey => paint colored .heading "PRIMARY KEY" ++ " " ++ columns
  | .unique => c.name ++ " " ++ paint colored .heading "UNIQUE" ++ " " ++ columns
  | .foreignKey table referenced =>
    c.name ++ " " ++ paint colored .heading "FOREIGN KEY" ++ " " ++ columns ++ " " ++
      paint colored .arrow "→" ++ " " ++ table.display ++ "(" ++ ", ".intercalate referenced ++ ")"

def Table.outline (colored : Bool) (t : Table) : String :=
  paint colored .heading (if t.isView then "VIEW" else "TABLE") ++ " " ++
    paint colored .title t.name ++
    String.join (t.columns.map fun c => "\n  " ++ c.outline colored) ++
    String.join (t.constraints.map fun c => "\n  " ++ c.outline colored)

def Namespace.outline (colored : Bool) (n : Namespace) : String :=
  paint colored .heading "NAMESPACE" ++ " " ++ paint colored .title n.name ++
    String.join (n.tables.map fun t => "\n" ++ indent (t.outline colored))

def Datasource.outline (colored : Bool) (d : Datasource) : String :=
  paint colored .heading "DATASOURCE" ++ " " ++ paint colored .title d.name ++
    String.join (d.spaces.map fun n => "\n" ++ indent (n.outline colored))

def Schema.outline (colored : Bool) : Schema → String
  | .ofDatasource d => d.outline colored
  | .ofNamespace n => n.outline colored
  | .ofTable t => t.outline colored

end SqlFragment
