import SqlFragment.Expr.Writing
import SqlFragment.Grammar.Literal

/-
The grammar of expressions. There is no precedence: a binary operator takes all that follows as its
right operand, so expressions nest to the right, and authors put parentheses.

  expression := term (binary-operator expression)?
  term       := number after* | operator-before term | primary after*
  primary    := case | timestamp | bytes | text | constant | function | parameter | path | group
-/
namespace SqlFragment

/-- What reading an expression depends on: the operators, and the clock for timestamps without a
date or a time. -/
structure Grammar where
  operators : Operators
  now : LocalTime

namespace Grammar
namespace Reader

def listItem (expression : Reader Expr) : Reader Expr := do
  let _ ← blanks
  let e ← expression
  let _ ← blanks
  return e

def listStep (expression : Reader Expr) (items : List Expr) : Reader (List Expr ⊕ List Expr) := do
  let e ← listItem expression
  if ← nextIs ')' then return .inr (items ++ [e])
  else
    char ','
    return .inl (items ++ [e])

/-- Expressions with commas between them, up to the closing parenthesis. -/
def expressions (expression : Reader Expr) : Reader (List Expr) := do
  let _ ← blanks
  if ← nextIs ')' then return [] else loop (listStep expression) []

def function (expression : Reader Expr) : Reader Expr := do
  let f ← name
  char '('
  let arguments ← expressions expression
  return .function f arguments

/-- One expression between parentheses, or a list of none or of several. -/
def group (expression : Reader Expr) : Reader Expr := do
  char '('
  let items ← expressions expression
  match items with
  | [e] => return .parenthesis e
  | _ => return .parenthesis (.commaList items)

def required {α : Type} (reader : Reader α) : Reader α := reader <|> unexpected

def caseArm (expression : Reader Expr) : Reader (Expr × Expr) := do
  let _ ← blanks
  keyword "when"
  let _ ← blanks
  let condition ← required expression
  let _ ← blanks
  required (keyword "then")
  let _ ← blanks
  let result ← required expression
  return (condition, result)

def subject (expression : Reader Expr) : Reader (Option Expr) := do
  if ← comesNext "when" then return none else some <$> expression

def elseBranch (expression : Reader Expr) : Reader Expr := do
  let _ ← blanks
  keyword "else"
  let _ ← blanks
  expression

def endMark : Reader Unit := do
  let _ ← blanks
  keyword "end"

/-- A case distinction needs an arm; its last branch and its closing word may be missing. -/
def caseOf (expression : Reader Expr) : Reader Expr := do
  let start ← place
  keyword "case"
  let _ ← blanks
  let compared ← subject expression
  let arms ← many (caseArm expression)
  if arms.isEmpty then errorAt start
  else
    let otherwise ← optional (elseBranch expression)
    let _ ← optional endMark
    return .case compared arms otherwise

def primary (g : Grammar) (expression : Reader Expr) : Reader Expr :=
  firstOf (List.map attempt [caseOf expression, timestamp g.now, bytes, text, constant,
    function expression, parameter, path, group expression])

/-- An operator before its operand. When the operand is missing, the next operator is tried. -/
def applied (g : Grammar) (term : Reader Expr) : Reader Expr :=
  firstOf (g.operators.unary.map fun (t, entry) => attempt do
    if entry.position ≠ .before then failure
    else
      token t entry.boundary.right
      let _ ← blanks
      let operand ← term
      build entry.constructor [operand])

/-- An operator in its own spelling, where it may stand. -/
def operator (stands : Bool) (t : String) (blankAfter : Bool) (c : Constructor) :
    Reader Constructor := do
  if stands then
    token t blankAfter
    return c
  else failure

def operatorAfter (g : Grammar) : Reader Constructor := do
  let spaced ← blanks
  firstOf (g.operators.unary.map fun (t, entry) =>
    operator (entry.position = .after && (spaced || !entry.boundary.left)) t entry.boundary.right
      entry.constructor)

def afterStep (g : Grammar) (e : Expr) : Reader (Expr ⊕ Expr) := do
  match ← optional (operatorAfter g) with
  | some c => .inl <$> build c [e]
  | none => return .inr e

def operatorsAfter (g : Grammar) (e : Expr) : Reader Expr := loop (afterStep g) e

def term (g : Grammar) (expression term : Reader Expr) : Reader Expr :=
  (attempt number >>= operatorsAfter g) <|> attempt (applied g term) <|>
    (primary g expression >>= operatorsAfter g)

/-- The binary operator that comes next, if it stands where it may. -/
def operatorBetween (g : Grammar) : Reader Constructor := attempt do
  let spaced ← blanks
  firstOf (g.operators.binary.map fun (t, entry) =>
    operator (spaced || !entry.boundary.left) t entry.boundary.right entry.constructor)

def operatorWithRight (g : Grammar) (expression : Reader Expr) : Reader (Constructor × Expr) := do
  let c ← operatorBetween g
  let _ ← blanks
  let right ← expression
  return (c, right)

def expression (g : Grammar) (term expression : Reader Expr) : Reader Expr := do
  let left ← term
  match ← optional (operatorWithRight g expression) with
  | some (c, right) => build c [left, right]
  | none => return left

/-- A text that is an expression and nothing else. -/
def whole (expression : Reader Expr) : Reader Expr := do
  let _ ← blanks
  let e ← observe expression
  let _ ← blanks
  match e, ← isDone with
  | some e, true => return e
  | _, _ => unexpected

end Reader

/-- The two readers that refer to themselves. -/
structure Readers where
  expression : Reader Expr
  term : Reader Expr

/-- Expressions and terms that nest less than `depth` deep. A nested one begins after its host, so
the length of a text bounds the depth of what is in it. -/
def readers (g : Grammar) : Nat → Readers
  | 0 => ⟨Reader.halt .endless, Reader.halt .endless⟩
  | depth + 1 =>
    let inner := g.readers depth
    let term := Reader.term g inner.expression inner.term
    ⟨Reader.expression g term inner.expression, term⟩

def read (g : Grammar) (cs : List Char) : Except Stop (Option Expr × Nat) :=
  Reader.whole (g.readers (cs.length + 1)).expression (.ofChars cs) 0

def parse (g : Grammar) (text : String) : Except EvaluationError Expr :=
  match g.read text.toList with
  | .ok (some e, _) => .ok e
  | .ok (none, place) => .error (Stop.torn place).error
  | .error stop => .error stop.error

end Grammar
end SqlFragment
