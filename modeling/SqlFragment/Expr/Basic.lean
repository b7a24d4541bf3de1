import SqlFragment.Operator
import SqlFragment.Path
import SqlFragment.Value.Basic

/-
Expression fragments of SQL as trees, with the views that walk over them.
-/
namespace SqlFragment

inductive Expr where
  | literal (value : Value) (type : DataType)
  | parameter (name : String)
  | column (path : Path)
  | table (path : Path)
  /-- Text that is written as it stands. -/
  | raw (text : String) (type : DataType)
  | function (name : String) (arguments : List Expr)
  | list (items : List Expr) (separator : String)
  | parenthesis (inner : Expr)
  | unary (op : UnaryOperator) (operand : Expr) (type : DataType)
  | binary (op : BinaryOperator) (left right : Expr) (type : DataType)
  | case (subject : Option Expr) (arms : List (Expr × Expr)) (otherwise : Option Expr)

namespace Expr

instance : Inhabited Expr := ⟨.literal .null .null⟩

/-- A literal typed after its value. -/
def value (v : Value) : Expr := .literal v v.dataType

def commaList (items : List Expr) : Expr := .list items ", "

def apply (op : UnaryOperator) (operand : Expr) : Expr := .unary op operand .undefined

def combine (op : BinaryOperator) (left right : Expr) : Expr := .binary op left right .undefined

/-- A range test; the two bounds are held as a conjunction. -/
def between (e low high : Expr) : Expr := combine .between e (combine .and low high)

/-- The expressions chained by `op` from left to right; there is none for no expression. -/
def chain? (op : BinaryOperator) : List Expr → Option Expr
  | [] => none
  | e :: es => some (es.foldl (combine op) e)

def children : Expr → List Expr
  | literal .. | parameter _ | column _ | table _ | raw .. => []
  | function _ arguments => arguments
  | list items _ => items
  | parenthesis inner => [inner]
  | unary _ operand _ => [operand]
  | binary _ left right _ => [left, right]
  | case subject arms otherwise =>
    subject.toList ++ arms.flatMap (fun (w, t) => [w, t]) ++ otherwise.toList

/-- The strength of the outermost operator; none for expressions that are delimited by themselves. -/
def precedence? : Expr → Option Nat
  | unary op .. => some op.precedence
  | binary op .. => some op.precedence
  | _ => none

mutual

/-- The expression and all its parts, each before its own parts. -/
def visit : Expr → List Expr
  | .literal v t => [.literal v t]
  | .parameter n => [.parameter n]
  | .column p => [.column p]
  | .table p => [.table p]
  | .raw s t => [.raw s t]
  | .function n args => .function n args :: visitAll args
  | .list items s => .list items s :: visitAll items
  | .parenthesis e => .parenthesis e :: visit e
  | .unary op e t => .unary op e t :: visit e
  | .binary op l r t => .binary op l r t :: (visit l ++ visit r)
  | .case s arms e => .case s arms e :: (visitOption s ++ visitArms arms ++ visitOption e)

def visitAll : List Expr → List Expr
  | [] => []
  | e :: es => visit e ++ visitAll es

def visitArms : List (Expr × Expr) → List Expr
  | [] => []
  | (w, t) :: arms => visit w ++ visit t ++ visitArms arms

def visitOption : Option Expr → List Expr
  | none => []
  | some e => visit e

end

mutual

def depth : Expr → Nat
  | .literal .. | .parameter _ | .column _ | .table _ | .raw .. => 1
  | .function _ args => 1 + depthAll args
  | .list items _ => 1 + depthAll items
  | .parenthesis e => 1 + depth e
  | .unary _ e _ => 1 + depth e
  | .binary _ l r _ => 1 + max (depth l) (depth r)
  | .case s arms e => 1 + max (depthOption s) (max (depthArms arms) (depthOption e))

def depthAll : List Expr → Nat
  | [] => 0
  | e :: es => max (depth e) (depthAll es)

def depthArms : List (Expr × Expr) → Nat
  | [] => 0
  | (w, t) :: arms => max (max (depth w) (depth t)) (depthArms arms)

def depthOption : Option Expr → Nat
  | none => 0
  | some e => depth e

end

mutual

/-- The type of an expression: the declared one, else that of the operator, else that of the first
part that has one. -/
def dataType : Expr → DataType
  | .literal _ t => t
  | .raw _ t => t
  | .parenthesis e => dataType e
  | .unary op e t => (t.orElse op.dataType).orElse (dataType e)
  | .binary op l r t =>
    if op.isBoolean then .boolean else (t.orElse (dataType l)).orElse (dataType r)
  | .case _ arms e => (armsType arms).orElse (optionType e)
  | .parameter _ | .column _ | .table _ | .function .. | .list .. => .undefined

def armsType : List (Expr × Expr) → DataType
  | [] => .undefined
  | (_, t) :: arms => (dataType t).orElse (armsType arms)

def optionType : Option Expr → DataType
  | none => .undefined
  | some e => dataType e

end

def firsts {α : Type} [DecidableEq α] (xs : List α) : List α :=
  xs.foldl (fun seen x => if x ∈ seen then seen else seen ++ [x]) []

/-- The paths of the columns, in the order of their first appearance. -/
def columns (e : Expr) : List Path :=
  firsts (e.visit.filterMap fun
    | .column path => some path
    | _ => none)

/-- The names of the parameters, in the order of their first appearance. -/
def parameters (e : Expr) : List String :=
  firsts (e.visit.filterMap fun
    | .parameter name => some name
    | _ => none)

mutual

/-- Equality of expressions, with literals compared as values. -/
def same : Expr → Expr → Bool
  | .literal v t, .literal w u => v.same w && t == u
  | .parameter n, .parameter m => n == m
  | .column p, .column q => p == q
  | .table p, .table q => p == q
  | .raw s t, .raw r u => s == r && t == u
  | .function n args, .function m brgs => n == m && sameAll args brgs
  | .list items s, .list jtems r => sameAll items jtems && s == r
  | .parenthesis e, .parenthesis f => same e f
  | .unary op e t, .unary oq f u => op == oq && same e f && t == u
  | .binary op l r t, .binary oq k q u => op == oq && same l k && same r q && t == u
  | .case s arms e, .case r brms f => sameOption s r && sameArms arms brms && sameOption e f
  | _, _ => false

def sameAll : List Expr → List Expr → Bool
  | [], [] => true
  | e :: es, f :: fs => same e f && sameAll es fs
  | _, _ => false

def sameArms : List (Expr × Expr) → List (Expr × Expr) → Bool
  | [], [] => true
  | (w, t) :: arms, (v, u) :: brms => same w v && same t u && sameArms arms brms
  | _, _ => false

def sameOption : Option Expr → Option Expr → Bool
  | none, none => true
  | some e, some f => same e f
  | _, _ => false

end

end Expr
end SqlFragment
