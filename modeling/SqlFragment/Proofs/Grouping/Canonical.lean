import SqlFragment.Proofs.Expr.Traversal

/-
The grouping of an expression: what is left of it without parentheses and declared types, when a
range test has three operands and chains of one associative operator are grouped from the left. A
column that is named like a number stands for the number, whose text is the same.
-/
namespace SqlFragment

def reservedWords : List String :=
  ["NOT", "EXISTS", "IS", "NULL", "LIKE", "IN", "BETWEEN", "AND", "OR", "XOR", "CASE", "WHEN",
    "THEN", "ELSE", "END"]

/-- Letters and digits of ASCII, at least one, that make no reserved word. -/
def isPlainName (s : String) : Bool :=
  !s.isEmpty && s.toList.all Char.isAlphanum && !reservedWords.contains s

namespace Expr

/-- The nodes of elementary expressions. The right side of a range test holds the two bounds. -/
def elementaryNode : Expr → Bool
  | .literal (.integer n) _ => 0 ≤ n.toInt
  | .parameter name => isPlainName name
  | .column path => !path.isEmpty && path.all isPlainName
  | .function name _ => isPlainName name
  | .parenthesis _ | .unary .. | .case .. => true
  | .binary op _ right _ =>
    match op, right with
    | .between, .binary .and .. => true
    | .between, _ => false
    | _, _ => true
  | _ => false

/-- Expressions made of columns, parameters and whole numbers by functions, operators, parentheses
and case distinctions. -/
def Elementary (e : Expr) : Prop := e.All fun x => x.elementaryNode

instance (e : Expr) : Decidable e.Elementary := inferInstanceAs (Decidable (e.All _))

def numeral? (name : String) : Option Int64 :=
  (Integer.parse? name.toList).filter fun n => toString n.toInt = name

/-- A column; one that is named like a number cannot be told from the number. -/
def ofPath : Path → Expr
  | [name] =>
    match numeral? name with
    | some n => .literal (.integer n) .undefined
    | none => .column [name]
  | path => .column path

def untypedNode : Expr → Expr
  | .literal v _ => .literal v .undefined
  | .column path => ofPath path
  | .unary op e _ => apply op e
  | .binary op l r _ => combine op l r
  | e => e

/-- An expression without the types declared in it. -/
def untyped (e : Expr) : Expr := e.rewrite untypedNode

/-- Puts `left` and `op` in front of `right`. They go to its first operand, below all operators on
its left side that join. -/
def graft (joins : BinaryOperator → Bool) (op : BinaryOperator) (left : Expr) : Expr → Expr
  | .binary inner a b t =>
    if joins inner then .binary inner (graft joins op left a) b t
    else combine op left (.binary inner a b t)
  | right => combine op left right

theorem graft_graft {joins : BinaryOperator → Bool} {inner : BinaryOperator}
    (joined : joins inner = true) (op : BinaryOperator) (left a b : Expr) :
    graft joins op left (graft joins inner a b) = graft joins inner (graft joins op left a) b := by
  fun_induction graft joins inner a b with
  | case1 next c d t here ih => simp only [graft, here, ↓reduceIte, ih]
  | case2 next c d t here => simp only [combine, graft, joined, here, ↓reduceIte, Bool.false_eq_true]
  | case3 right shape =>
    rw [graft.eq_2 joins inner _ right shape]
    simp only [combine, graft, joined, ↓reduceIte]

def reassociate (op : BinaryOperator) (left right : Expr) : Expr :=
  graft (fun inner => inner == op && op.isAssociative) op left right

def bareNode : Expr → Expr
  | .parenthesis e => e
  | .binary .between e (.binary .and low high _) _ => .function "BETWEEN" [e, low, high]
  | e => e

def chainNode : Expr → Expr
  | .binary op l r _ => reassociate op l r
  | e => e

/-- An expression without its parentheses, range tests as nodes of three operands, and the chains of
each associative operator grouped from the left. -/
def chained (e : Expr) : Expr := (e.rewrite bareNode).rewrite chainNode

/-- The grouping of an expression. -/
def canonical (e : Expr) : Expr := e.untyped.chained

theorem chained_unary (op : UnaryOperator) (e : Expr) (t : DataType) :
    chained (.unary op e t) = .unary op (chained e) t := rfl

theorem chained_function (n : String) (args : List Expr) :
    chained (.function n args) = .function n (args.map chained) := by
  simp only [chained, rewrite_function, bareNode, chainNode, List.map_map]
  rfl

theorem chained_case (s : Option Expr) (arms : List (Expr × Expr)) (o : Option Expr) :
    chained (.case s arms o) =
      .case (s.map chained) (arms.map fun arm => (chained arm.1, chained arm.2)) (o.map chained) := by
  simp only [chained, rewrite_case, bareNode, chainNode, Option.map_map, List.map_map]
  rfl

section
variable {f : Expr → Expr}

theorem chained_function_map {args : List Expr} (same : ∀ a ∈ args, (f a).chained = a.chained)
    (n : String) : chained (.function n (args.map f)) = chained (.function n args) := by
  have parts : args.map (chained ∘ f) = args.map chained := List.map_congr_left same
  rw [chained_function, chained_function, List.map_map, parts]

theorem chained_case_map {s o : Option Expr} {arms : List (Expr × Expr)}
    (subject : ∀ e ∈ s, (f e).chained = e.chained)
    (each : ∀ arm ∈ arms, (f arm.1).chained = arm.1.chained ∧ (f arm.2).chained = arm.2.chained)
    (branch : ∀ e ∈ o, (f e).chained = e.chained) :
    chained (.case (s.map f) (arms.map fun arm => (f arm.1, f arm.2)) (o.map f)) =
      chained (.case s arms o) := by
  have first : s.map (chained ∘ f) = s.map chained := Option.map_congr subject
  have last : o.map (chained ∘ f) = o.map chained := Option.map_congr branch
  have middle : arms.map (fun arm => ((f arm.1).chained, (f arm.2).chained)) =
      arms.map fun arm => (arm.1.chained, arm.2.chained) :=
    List.map_congr_left fun arm harm => by rw [(each arm harm).1, (each arm harm).2]
  rw [chained_case, chained_case, Option.map_map, Option.map_map, List.map_map, first, last]
  exact congrArg (Expr.case _ · _) middle

end

theorem chained_range (e low high : Expr) (t u : DataType) :
    chained (.binary .between e (.binary .and low high t) u) =
      .function "BETWEEN" [chained e, chained low, chained high] := rfl

theorem chained_binary {op : BinaryOperator} (other : op ≠ .between) (l r : Expr) (t : DataType) :
    chained (.binary op l r t) = reassociate op (chained l) (chained r) := by
  have bare : bareNode (.binary op (rewrite bareNode l) (rewrite bareNode r) t) =
      .binary op (rewrite bareNode l) (rewrite bareNode r) t := by
    cases op <;> first | rfl | exact absurd rfl other
  rw [chained, rewrite, bare, rewrite]
  rfl

end Expr
end SqlFragment
