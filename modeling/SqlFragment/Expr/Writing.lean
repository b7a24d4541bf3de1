import SqlFragment.Expr.Basic

/-
Expressions as text. An operand is put between parentheses exactly when it would otherwise be read
as a different grouping. Text in a dialect is written by the same rules: first every leaf is
replaced by its own text, then the tree is written.
-/
namespace SqlFragment

def enclosed (text : String) : String := "(" ++ text ++ ")"

def enclosedIf (needed : Bool) (text : String) : String := if needed then enclosed text else text

/-- Whether a text begins like a signed number; after a sign it would open a comment. -/
def startsWithSign (text : String) : Bool :=
  match text.toList with
  | '-' :: _ | '+' :: _ => true
  | _ => false

namespace UnaryOperator

/-- Whether an operand, written as `text`, must be enclosed under this operator. -/
def groups (op : UnaryOperator) (operand : Expr) (text : String) : Bool :=
  let binds :=
    match operand.precedence? with
    | none => false
    | some strength =>
      strength < op.precedence || (strength == op.precedence && op.position == .after) ||
        op == .existence
  binds || (!op.isKeyword && startsWithSign text)

def write (op : UnaryOperator) (operand : Expr) (text : String) : String :=
  let text := enclosedIf (op.groups operand text) text
  match op.position, op.isKeyword with
  | .after, _ => text ++ " " ++ op.spelling
  | _, true => op.spelling ++ " " ++ text
  | _, false => op.spelling ++ text

end UnaryOperator

namespace BinaryOperator

/-- Whether an operand must be enclosed on the right or on the left of this operator. -/
def groups (op : BinaryOperator) (operand : Expr) (right : Bool) : Bool :=
  match operand with
  | .binary inner .. =>
    inner.precedence < op.precedence ||
      (inner != op && (inner.isBitwise || op.isBitwise)) ||
      (inner.precedence == op.precedence &&
        (op.isComparison || (right && !(inner == op && op.isAssociative))))
  | .unary inner .. => inner.precedence ≤ op.precedence
  | _ => false

def writeOperand (op : BinaryOperator) (operand : Expr) (right : Bool) (text : String) : String :=
  enclosedIf (op.groups operand right) text

/-- The right operand; the list of a membership test is always enclosed. -/
def writeRight (op : BinaryOperator) (operand : Expr) (text : String) : String :=
  match operand with
  | .list .. => enclosedIf op.isMembership (op.writeOperand operand true text)
  | _ => op.writeOperand operand true text

end BinaryOperator

namespace Expr

mutual

def display : Expr → String
  | .literal v _ => v.display
  | .parameter name => ":" ++ name
  | .column path => path.display
  | .table path => path.display
  | .raw text _ => text
  | .function name args => name ++ enclosed (", ".intercalate (displayAll args))
  | .list items separator => separator.intercalate (displayAll items)
  | .parenthesis inner => enclosed (display inner)
  | .unary op operand _ => op.write operand (display operand)
  -- the two bounds of a range are not a conjunction
  | .binary .between left (.binary .and low high _) _ =>
    BinaryOperator.between.writeOperand left false (display left) ++ " BETWEEN " ++
      (BinaryOperator.between.writeOperand low true (display low) ++ " AND " ++
        BinaryOperator.between.writeOperand high true (display high))
  | .binary op left right _ =>
    op.writeOperand left false (display left) ++ " " ++ op.spelling ++ " " ++
      op.writeRight right (display right)
  | .case subject arms otherwise =>
    " ".intercalate
      ("CASE" :: displayOption subject ++ displayArms arms ++
        (displayOption otherwise).map ("ELSE " ++ ·) ++ ["END"])

def displayAll : List Expr → List String
  | [] => []
  | e :: es => display e :: displayAll es

def displayArms : List (Expr × Expr) → List String
  | [] => []
  | (w, t) :: arms => ("WHEN " ++ display w ++ " THEN " ++ display t) :: displayArms arms

def displayOption : Option Expr → List String
  | none => []
  | some e => [display e]

end

/-- The nodes whose text depends on the dialect and on the schema. -/
inductive Leaf where
  | literal (value : Value) (type : DataType)
  | parameter (name : String)
  | column (path : Path)
  | table (path : Path)

def leaf? : Expr → Option Leaf
  | .literal v t => some (.literal v t)
  | .parameter name => some (.parameter name)
  | .column path => some (.column path)
  | .table path => some (.table path)
  | _ => none

def leaves (e : Expr) : List Leaf := e.visit.filterMap leaf?

section
variable {m : Type → Type} [Monad m]

mutual

/-- Replaces every leaf by its text, from the first to the last. -/
def fill (write : Leaf → m String) : Expr → m Expr
  | .literal v t => return .raw (← write (.literal v t)) t
  | .parameter name => return .raw (← write (.parameter name)) .undefined
  | .column path => return .raw (← write (.column path)) .undefined
  | .table path => return .raw (← write (.table path)) .undefined
  | .raw text t => return .raw text t
  | .function name args => return .function name (← fillAll write args)
  | .list items separator => return .list (← fillAll write items) separator
  | .parenthesis inner => return .parenthesis (← fill write inner)
  | .unary op operand t => return .unary op (← fill write operand) t
  | .binary op left right t => do
    let left ← fill write left
    let right ← fill write right
    return .binary op left right t
  | .case subject arms otherwise => do
    let subject ← fillOption write subject
    let arms ← fillArms write arms
    let otherwise ← fillOption write otherwise
    return .case subject arms otherwise

def fillAll (write : Leaf → m String) : List Expr → m (List Expr)
  | [] => return []
  | e :: es => do
    let e ← fill write e
    let es ← fillAll write es
    return e :: es

def fillArms (write : Leaf → m String) : List (Expr × Expr) → m (List (Expr × Expr))
  | [] => return []
  | (w, t) :: arms => do
    let w ← fill write w
    let t ← fill write t
    let arms ← fillArms write arms
    return (w, t) :: arms

def fillOption (write : Leaf → m String) : Option Expr → m (Option Expr)
  | none => return none
  | some e => return some (← fill write e)

end

end

inductive Kind where
  | literal | parameter | column | table | raw | function | list | parenthesis | unary | binary | case
deriving DecidableEq, Repr

def kind : Expr → Kind
  | .literal .. => .literal
  | .parameter _ => .parameter
  | .column _ => .column
  | .table _ => .table
  | .raw .. => .raw
  | .function .. => .function
  | .list .. => .list
  | .parenthesis _ => .parenthesis
  | .unary .. => .unary
  | .binary .. => .binary
  | .case .. => .case

structure KindError where
  expr : Expr
  expected : Kind

def Kind.title : Kind → String
  | .literal => "Literal"
  | .parameter => "Parameter"
  | .column => "Column"
  | .table => "Table"
  | .raw => "Preformatted"
  | .function => "Function"
  | .list => "List"
  | .parenthesis => "Parenthesis"
  | .unary => "UnaryOp"
  | .binary => "BinaryOp"
  | .case => "CaseWhen"

def KindError.message (e : KindError) : String :=
  "InvalidConversion: Invalid conversion from " ++ e.expr.display ++ " to " ++ e.expected.title ++ "\n"

def expect (e : Expr) (kind : Kind) : Except KindError Expr :=
  if e.kind = kind then .ok e else .error ⟨e, kind⟩

end Expr
end SqlFragment
