import SqlFragment.Grammar.Expression
import SqlFragment.Proofs.Grammar.Literal

/-
The grammar of expressions as rules. They have the shape of the readers, but a rule that does not match
has read nothing, so none of them has to go back.
-/
namespace SqlFragment.Grammar

def listItem (expression : Rule Expr) : Rule Expr := do
  let _ ← Rule.blanks
  let e ← expression
  let _ ← Rule.blanks
  return e

def emptyList : Rule (List Expr) := do
  let _ ← Rule.blanks
  Rule.char ')'
  return []

def nextItem (expression : Rule Expr) : Rule Expr := Rule.char ',' *> listItem expression

def expressions (expression : Rule Expr) : Rule (List Expr) :=
  emptyList <|> do
    let first ← listItem expression
    let rest ← Rule.many (nextItem expression)
    Rule.char ')'
    return first :: rest

def function (expression : Rule Expr) : Rule Expr := do
  let f ← name
  Rule.char '('
  let arguments ← expressions expression
  return .function f arguments

def group (expression : Rule Expr) : Rule Expr := do
  Rule.char '('
  let items ← expressions expression
  match items with
  | [e] => return .parenthesis e
  | _ => return .parenthesis (.commaList items)

def required {α : Type} (rule : Rule α) : Rule α := do
  let place ← Rule.remaining
  rule <|> Rule.unexpected place

def caseArm (expression : Rule Expr) : Rule (Expr × Expr) := do
  let _ ← Rule.blanks
  keyword "when"
  let _ ← Rule.blanks
  let condition ← required expression
  let _ ← Rule.blanks
  required (keyword "then")
  let _ ← Rule.blanks
  let result ← required expression
  return (condition, result)

def elseBranch (expression : Rule Expr) : Rule Expr := do
  let _ ← Rule.blanks
  keyword "else"
  let _ ← Rule.blanks
  expression

def endMark : Rule Unit := do
  let _ ← Rule.blanks
  keyword "end"

def caseTail (expression : Rule Expr) (start : List Char) (subject : Option Expr) : Rule Expr := do
  let arms ← Rule.many (caseArm expression)
  if arms.isEmpty then Rule.unexpected start
  else do
    let otherwise ← Rule.optional (elseBranch expression)
    let _ ← Rule.optional endMark
    return .case subject arms otherwise

def caseOf (expression : Rule Expr) : Rule Expr := do
  let start ← Rule.remaining
  keyword "case"
  let _ ← Rule.blanks
  let whens ← comesNext "when"
  let subject ← (if whens then pure none else some <$> expression)
  caseTail expression start subject

def primary (g : Grammar) (expression : Rule Expr) : Rule Expr :=
  Rule.firstOf [caseOf expression, timestamp g.now, bytes, text, constant, function expression,
    parameter, path, group expression]

def applied (g : Grammar) (term : Rule Expr) : Rule Expr :=
  Rule.firstOf (g.operators.unary.map fun (t, entry) => do
    if entry.position ≠ .before then failure
    token t entry.boundary.right
    let _ ← Rule.blanks
    let operand ← term
    Rule.build entry.constructor [operand])

def operator (stands : Bool) (t : String) (blankAfter : Bool) (c : Constructor) :
    Rule Constructor := do
  if stands then
    token t blankAfter
    return c
  else failure

def operatorAfter (g : Grammar) : Rule Constructor := do
  let spaced ← Rule.blanks
  Rule.firstOf (g.operators.unary.map fun (t, entry) =>
    operator (entry.position = .after && (spaced || !entry.boundary.left)) t entry.boundary.right
      entry.constructor)

def operatorsAfter (g : Grammar) (e : Expr) : Rule Expr := do
  let constructors ← Rule.many g.operatorAfter
  constructors.foldlM (fun e c => Rule.build c [e]) e

def withOperatorsAfter (g : Grammar) (rule : Rule Expr) : Rule Expr := rule >>= g.operatorsAfter

def termOf (g : Grammar) (expression term : Rule Expr) : Rule Expr :=
  Rule.firstOf [g.withOperatorsAfter number, g.applied term,
    g.withOperatorsAfter (g.primary expression)]

def operatorBetween (g : Grammar) : Rule Constructor := do
  let spaced ← Rule.blanks
  Rule.firstOf (g.operators.binary.map fun (t, entry) =>
    operator (spaced || !entry.boundary.left) t entry.boundary.right entry.constructor)

def operatorWithRight (g : Grammar) (expression : Rule Expr) : Rule (Constructor × Expr) := do
  let c ← g.operatorBetween
  let _ ← Rule.blanks
  let right ← expression
  return (c, right)

def expressionOf (g : Grammar) (term expression : Rule Expr) : Rule Expr := do
  let left ← term
  let continued ← Rule.optional (g.operatorWithRight expression)
  match continued with
  | some (c, right) => Rule.build c [left, right]
  | none => return left

structure Level where
  expression : Rule Expr
  term : Rule Expr

def level (g : Grammar) : Nat → Level
  | 0 => ⟨failure, failure⟩
  | depth + 1 =>
    let inner := g.level depth
    let term := g.termOf inner.expression inner.term
    ⟨g.expressionOf term inner.expression, term⟩

/-- The error for a text that cannot be understood from `rest` on. -/
def unexpectedAt (cs rest : List Char) : EvaluationError :=
  .unexpected (String.ofList (rest.take 24)) (bytesOf cs - bytesOf rest)

def parseChars (g : Grammar) (cs : List Char) : Except EvaluationError Expr :=
  let start := Text.skipBlank cs
  match (g.level (cs.length + 1)).expression start with
  | .error (.unexpected rest) => .error (unexpectedAt cs rest)
  | .error (.refused refusal) => .error (.ofRefusal refusal)
  | .ok none => .error (unexpectedAt cs start)
  | .ok (some (e, rest)) =>
    let rest := Text.skipBlank rest
    if rest.isEmpty then .ok e else .error (unexpectedAt cs rest)

end SqlFragment.Grammar
