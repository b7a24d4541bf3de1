import SqlFragment.Grammar.Expression
import SqlFragment.Json.Basic

/-
Inputs that expressions are made of: finished expressions, values, texts of the grammar, lists, and
ordered maps. An entry of a map with a list is an operator in Polish form or, with a key that ends
in parentheses, a call; every other entry is an equality. Several entries are joined by AND.
-/
namespace SqlFragment

inductive Input where
  | expr (e : Expr)
  | value (v : Value)
  | text (s : String)
  | list (items : List Input)
  | map (entries : List (String × Input))

namespace Input

def kind : Input → String
  | expr _ => "expression"
  | value _ => "value"
  | text _ => "text"
  | list _ => "list"
  | map _ => "map"

mutual

/-- Data as an input: scalars are values, strings are texts of the grammar. -/
def ofJson : Json → Input
  | .null => .value .null
  | .boolean b => .value (.boolean b)
  | .integer n =>
    match Integer.ofInt? n with
    | some i => .value (.integer i)
    | none => .value (.float (.ofInt n))
  | .float x => .value (.float x)
  | .text s => .text s
  | .array items => .list (ofJsonAll items)
  | .object entries => .map (ofJsonEntries entries)

def ofJsonAll : List Json → List Input
  | [] => []
  | item :: items => ofJson item :: ofJsonAll items

def ofJsonEntries : List (String × Json) → List (String × Input)
  | [] => []
  | (key, item) :: entries => (key, ofJson item) :: ofJsonEntries entries

end

end Input

namespace Grammar

def calledFunction? (key : String) : Option String :=
  match key.toList.reverse with
  | ')' :: '(' :: name => some (String.ofList name.reverse)
  | _ => none

/-- The operator or the function of a key applied to its operands. -/
def applyKey (g : Grammar) (key : String) (operands : List Expr) : Except EvaluationError Expr :=
  match calledFunction? key with
  | some f => .ok (.function f operands)
  | none =>
    let token := Text.lowercase (Text.trim key)
    match g.operators.polish? token operands.length with
    | some c => (c.build operands).mapError .ofRefusal
    | none => .error (.refused (.unknownOperator token operands.length))

mutual

def evaluate (g : Grammar) : Input → Except EvaluationError Expr
  | .expr e => .ok e
  | .value v => .ok (.value v)
  | .text s => g.parse s
  | .list items => do
    let es ← evaluateAll g items
    return .commaList es
  | .map entries => do
    let es ← evaluateEntries g entries
    match Expr.chain? .and es with
    | some e => return e
    | none => throw (.refused .emptyMap)

def evaluateAll (g : Grammar) : List Input → Except EvaluationError (List Expr)
  | [] => return []
  | item :: items => do
    let e ← evaluate g item
    let es ← evaluateAll g items
    return e :: es

def evaluateEntries (g : Grammar) : List (String × Input) → Except EvaluationError (List Expr)
  | [] => return []
  | (key, input) :: entries => do
    let e ←
      match input with
      | .list operands => do
        let es ← evaluateAll g operands
        g.applyKey key es
      | .map nested => do
        let inner ← evaluate g (.map nested)
        g.applyKey key [inner]
      | .expr e => pure (Expr.combine .eq (.column (Path.parse key)) e)
      | .value v => pure (Expr.combine .eq (.column (Path.parse key)) (.value v))
      | .text s => do
        let e ← g.parse s
        pure (Expr.combine .eq (.column (Path.parse key)) e)
    let es ← evaluateEntries g entries
    return e :: es

end

end Grammar
end SqlFragment
