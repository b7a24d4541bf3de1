import SqlFragment.Expr.Basic
import SqlFragment.Text.Lowercase

/-
Tables of operators. The grammar looks operators up by their token, in the order in which tokens are
tried; the Polish form looks them up by token and number of operands.
-/
namespace SqlFragment

inductive Refusal where
  | count (op : String) (expected got : Nat)
  | tooFew (op : String) (got : Nat)
  | noSubject (op : String)
  | unknownOperator (token : String) (got : Nat)
  | emptyMap
  | other (reason : String)
  /-- An operator that reads a text of its own cannot do so. -/
  | unreadable (fragment : String) (offset : Nat)
deriving DecidableEq

def Refusal.reason : Refusal → String
  | .count op expected got =>
    let noun := if expected = 1 then "operand" else "operands"
    s!"{op} expects {expected} {noun}, got {got}"
  | .tooFew op got => s!"{op} expects at least 2 operands, got {got}"
  | .noSubject op => s!"{op} expects a subject"
  | .unknownOperator token got => s!"no operator `{token}` taking {got} operands"
  | .emptyMap => "cannot evaluate an empty map"
  | .other reason => reason
  | .unreadable fragment offset => s!"unexpected `{fragment}` at offset {offset}"

inductive Constructor where
  | unary (op : UnaryOperator)
  | binary (op : BinaryOperator)
  /-- Two or more operands, grouped from the left. -/
  | chain (op : BinaryOperator)
  /-- The first operand tested against the list of the others. -/
  | membership (op : BinaryOperator)
  | between
  | custom (build : List Expr → Except Refusal Expr)

def Constructor.build : Constructor → List Expr → Except Refusal Expr
  | .unary op, operands =>
    match operands with
    | [operand] => .ok (Expr.apply op operand)
    | _ => .error (.count op.spelling 1 operands.length)
  | .binary op, operands =>
    match operands with
    | [left, right] => .ok (Expr.combine op left right)
    | _ => .error (.count op.spelling 2 operands.length)
  | .chain op, operands =>
    match operands with
    | first :: second :: rest => .ok ((second :: rest).foldl (Expr.combine op) first)
    | _ => .error (.tooFew op.spelling operands.length)
  | .membership op, operands =>
    match operands with
    | subject :: items => .ok (Expr.combine op subject (Expr.commaList items))
    | [] => .error (.noSubject op.spelling)
  | .between, operands =>
    match operands with
    | [e, low, high] => .ok (Expr.between e low high)
    | _ => .error (.count "BETWEEN" 3 operands.length)
  | .custom build, operands => build operands

inductive Arity where
  | exactly (count : Nat)
  | any
deriving DecidableEq

/-- The sides of a token on which a blank must stand. -/
structure Boundary where
  left : Bool := false
  right : Bool := false
deriving DecidableEq

structure UnaryEntry where
  constructor : Constructor
  position : Position
  boundary : Boundary

structure BinaryEntry where
  constructor : Constructor
  boundary : Boundary

/-- Longer tokens are tried first, tokens of one length in the order of their characters. -/
def triedBefore (a b : String) : Bool :=
  b.utf8ByteSize < a.utf8ByteSize || (a.utf8ByteSize == b.utf8ByteSize && a < b)

/-- Entries by token, held in the order in which the tokens are tried. -/
abbrev TokenTable (α : Type) := List (String × α)

/-- Adds an entry at its place; an entry of the same token is replaced. -/
def TokenTable.insert {α : Type} (token : String) (entry : α) : TokenTable α → TokenTable α
  | [] => [(token, entry)]
  | (other, e) :: rest =>
    if other = token then (token, entry) :: rest
    else if triedBefore token other then (token, entry) :: (other, e) :: rest
    else (other, e) :: TokenTable.insert token entry rest

structure Operators where
  unary : TokenTable UnaryEntry := []
  binary : TokenTable BinaryEntry := []
  polish : List ((String × Arity) × Constructor) := []

namespace Operators

def withPolish (ops : Operators) (token : String) (arity : Arity) (c : Constructor) : Operators :=
  let key := (Text.lowercase token, arity)
  { ops with polish := (key, c) :: ops.polish.filter fun entry => entry.1 ≠ key }

/-- Adds a unary operator, in the grammar and with one operand in the Polish form. -/
def withUnary (ops : Operators) (token : String) (entry : UnaryEntry) : Operators :=
  let ops := ops.withPolish token (.exactly 1) entry.constructor
  { ops with unary := ops.unary.insert (Text.lowercase token) entry }

/-- Adds a binary operator, in the grammar and with two operands in the Polish form. -/
def withBinary (ops : Operators) (token : String) (entry : BinaryEntry) : Operators :=
  let ops := ops.withPolish token (.exactly 2) entry.constructor
  { ops with binary := ops.binary.insert (Text.lowercase token) entry }

def polishFor? (ops : Operators) (token : String) (arity : Arity) : Option Constructor :=
  (ops.polish.find? fun entry => entry.1 = (token, arity)).map Prod.snd

/-- The operator of the Polish form for a number of operands; an entry for exactly this number goes
before one for any number. -/
def polish? (ops : Operators) (token : String) (count : Nat) : Option Constructor :=
  let token := Text.lowercase token
  ops.polishFor? token (.exactly count) <|> ops.polishFor? token .any

def symbols : List (String × BinaryOperator) :=
  [("=", .eq), ("<>", .notEq), ("!=", .notEq), ("<", .lt), ("<=", .ltEq), (">", .gt), (">=", .gtEq),
    ("+", .plus), ("-", .minus), ("*", .multiply), ("/", .divide), ("%", .modulo),
    ("||", .stringConcat), ("&", .bitwiseAnd), ("|", .bitwiseOr), ("^", .bitwiseXor),
    ("<<", .shiftLeft), (">>", .shiftRight)]

def keywords : List (String × BinaryOperator) :=
  [("and", .and), ("or", .or), ("xor", .xor), ("like", .like), ("not like", .notLike), ("in", .isIn),
    ("not in", .notIn), ("is", .is), ("is not", .isNot)]

def unaryEntries : List (String × UnaryEntry) :=
  [("not", ⟨.unary .not, .before, ⟨false, true⟩⟩),
    ("-", ⟨.unary .minus, .before, ⟨false, false⟩⟩),
    ("+", ⟨.unary .plus, .before, ⟨false, false⟩⟩),
    ("~", ⟨.unary .bitwiseNot, .before, ⟨false, false⟩⟩),
    ("exists", ⟨.unary .existence, .before, ⟨false, true⟩⟩),
    ("is null", ⟨.unary .isNull, .after, ⟨true, false⟩⟩),
    ("is not null", ⟨.unary .isNotNull, .after, ⟨true, false⟩⟩)]

def binaryEntries : List (String × BinaryEntry) :=
  symbols.map (fun (token, op) => (token, ⟨.binary op, ⟨false, false⟩⟩)) ++
    keywords.map (fun (token, op) => (token, ⟨.binary op, ⟨true, true⟩⟩))

def polishEntries : List (String × Arity × Constructor) :=
  [("between", .exactly 3, .between), ("and", .any, .chain .and), ("or", .any, .chain .or),
    ("xor", .any, .chain .xor), ("||", .any, .chain .stringConcat),
    ("in", .any, .membership .isIn), ("not in", .any, .membership .notIn)]

/-- The usual operators of SQL. -/
def standard : Operators :=
  let ops := unaryEntries.foldl (fun ops (token, entry) => ops.withUnary token entry) {}
  let ops := binaryEntries.foldl (fun ops (token, entry) => ops.withBinary token entry) ops
  polishEntries.foldl (fun ops (token, arity, c) => ops.withPolish token arity c) ops

end Operators
end SqlFragment
