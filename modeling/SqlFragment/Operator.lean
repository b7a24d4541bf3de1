import SqlFragment.DataType

/-
The operators of expressions, with their spelling and their binding strength. Unary and binary
operators share one scale of strength; a higher number binds tighter.
-/
namespace SqlFragment

inductive Position where
  | before
  | between
  | after
deriving DecidableEq, Repr

inductive UnaryOperator where
  | not
  | minus
  | plus
  | bitwiseNot
  | existence
  | isNull
  | isNotNull
deriving DecidableEq, Repr

namespace UnaryOperator

def spelling : UnaryOperator → String
  | not => "NOT"
  | minus => "-"
  | plus => "+"
  | bitwiseNot => "~"
  | existence => "EXISTS"
  | isNull => "IS NULL"
  | isNotNull => "IS NOT NULL"

def position : UnaryOperator → Position
  | isNull | isNotNull => .after
  | _ => .before

/-- Keywords are divided from their operand by a space. -/
def isKeyword : UnaryOperator → Bool
  | minus | plus | bitwiseNot => false
  | _ => true

def precedence : UnaryOperator → Nat
  | not => 4
  | isNull | isNotNull => 5
  | _ => 11

/-- The type of the result; undefined when it is the operand's. -/
def dataType (op : UnaryOperator) : DataType := if op.isKeyword then .boolean else .undefined

end UnaryOperator

inductive BinaryOperator where
  | eq | notEq
  | lt | ltEq | gt | gtEq
  | like | notLike
  | isIn | notIn
  | is | isNot
  | between
  | and | or | xor
  | plus | minus | multiply | divide | modulo
  | stringConcat
  | bitwiseAnd | bitwiseOr | bitwiseXor
  | shiftLeft | shiftRight
deriving DecidableEq, Repr

namespace BinaryOperator

def spelling : BinaryOperator → String
  | eq => "="
  | notEq => "<>"
  | lt => "<"
  | ltEq => "<="
  | gt => ">"
  | gtEq => ">="
  | like => "LIKE"
  | notLike => "NOT LIKE"
  | isIn => "IN"
  | notIn => "NOT IN"
  | is => "IS"
  | isNot => "IS NOT"
  | between => "BETWEEN"
  | and => "AND"
  | or => "OR"
  | xor => "XOR"
  | plus => "+"
  | minus => "-"
  | multiply => "*"
  | divide => "/"
  | modulo => "%"
  | stringConcat => "||"
  | bitwiseAnd => "&"
  | bitwiseOr => "|"
  | bitwiseXor => "^"
  | shiftLeft => "<<"
  | shiftRight => ">>"

def precedence : BinaryOperator → Nat
  | or => 1
  | xor => 2
  | and => 3
  | eq | notEq | lt | ltEq | gt | gtEq | like | notLike | isIn | notIn | is | isNot | between => 5
  | bitwiseOr | bitwiseXor => 6
  | bitwiseAnd => 7
  | shiftLeft | shiftRight => 8
  | plus | minus | stringConcat => 9
  | multiply | divide | modulo => 10

/-- Comparisons do not chain: `a = b = c` is never written bare. -/
def isComparison (op : BinaryOperator) : Bool := op.precedence == 5

/-- Operators whose result is a truth value whatever their operands are. The two equalities are not
among them: their type is taken from the operands. -/
def isBoolean : BinaryOperator → Bool
  | eq | notEq => false
  | and | or | xor => true
  | op => op.isComparison

def isMembership : BinaryOperator → Bool
  | isIn | notIn => true
  | _ => false

/-- Operators whose strength against the others is not the same in all dialects. -/
def isBitwise : BinaryOperator → Bool
  | bitwiseAnd | bitwiseOr | bitwiseXor | shiftLeft | shiftRight => true
  | _ => false

/-- Operators for which `a op (b op c)` equals `a op b op c`. -/
def isAssociative : BinaryOperator → Bool
  | and | or | xor | plus | multiply | stringConcat | bitwiseAnd | bitwiseOr | bitwiseXor => true
  | _ => false

end BinaryOperator
end SqlFragment
