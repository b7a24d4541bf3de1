import SqlFragment.Operators
import SqlFragment.Text.Blank

/-
Reading a text by its bytes. A reader is at some byte and moves on from there. One that does not
match gives no result and stays where it has got to, so whoever tries another one first goes back.
Only between two characters can a text be cut, and a reader that would go to any other byte, or cut
there, is torn.
-/
namespace SqlFragment

inductive EvaluationError where
  /-- The text that cannot be read, cut short, and where it begins, in bytes. -/
  | unexpected (fragment : String) (offset : Nat)
  | refused (refusal : Refusal)
deriving DecidableEq

def EvaluationError.message : EvaluationError → String
  | .unexpected fragment offset => s!"ParseError: unexpected `{fragment}` at offset {offset}\n"
  | .refused refusal => "EvaluationError: " ++ refusal.reason ++ "\n"

/-- What an operator could not read is passed on as such. -/
def EvaluationError.ofRefusal : Refusal → EvaluationError
  | .unreadable fragment offset => .unexpected fragment offset
  | refusal => .refused refusal

namespace Grammar

def bytesOf : List Char → Nat
  | [] => 0
  | c :: cs => c.utf8Size + bytesOf cs

/-- The characters that make up the first `count` bytes, if some do. -/
def takeBytes? : Nat → List Char → Option (List Char)
  | 0, _ => some []
  | _ + 1, [] => none
  | count + 1, c :: cs =>
    if c.utf8Size ≤ count + 1 then (takeBytes? (count + 1 - c.utf8Size) cs).map (c :: ·) else none

/-- What is left of a text from each of its bytes on, and nothing inside of a character. -/
def cutsOf : List Char → List (Option (List Char))
  | [] => [some []]
  | c :: cs => some (c :: cs) :: (List.replicate (c.utf8Size - 1) none ++ cutsOf cs)

/-- A text that can be cut at its bytes. -/
structure Source where
  cuts : Array (Option (List Char))

namespace Source

def ofChars (cs : List Char) : Source := ⟨(cutsOf cs).toArray⟩

def from? (s : Source) (offset : Nat) : Option (List Char) := s.cuts[offset]?.join

def between? (s : Source) (start stop : Nat) : Option (List Char) :=
  if start ≤ stop then (s.from? start).bind (takeBytes? (stop - start)) else none

def size (s : Source) : Nat := s.cuts.size - 1

end Source

/-- Why reading ends before its time. -/
inductive Stop where
  | failed (error : EvaluationError)
  /-- The byte is inside of a character or behind the end. -/
  | torn (offset : Nat)
  /-- Reading would not get any further, or nests deeper than the text is long. -/
  | endless

def Stop.error : Stop → EvaluationError
  | .failed error => error
  | .torn offset => .unexpected "" offset
  | .endless => .unexpected "" 0

/-- Gives a result or none, and the byte where it has got to. -/
def Reader (α : Type) := Source → Nat → Except Stop (Option α × Nat)

namespace Reader
variable {α β σ : Type}

instance : Monad Reader where
  pure a := fun _ place => .ok (some a, place)
  bind reader next := fun source place =>
    match reader source place with
    | .error stop => .error stop
    | .ok (none, place) => .ok (none, place)
    | .ok (some a, place) => next a source place

-- The other reader begins where the first one has got to.
instance : Alternative Reader where
  failure := fun _ place => .ok (none, place)
  orElse reader other := fun source place =>
    match reader source place with
    | .error stop => .error stop
    | .ok (none, place) => other () source place
    | .ok (some a, place) => .ok (some a, place)

def halt (stop : Stop) : Reader α := fun _ _ => .error stop

def place : Reader Nat := fun _ place => .ok (some place, place)

def goTo (offset : Nat) : Reader Unit := fun source _ =>
  match source.from? offset with
  | some _ => .ok (some (), offset)
  | none => .error (.torn offset)

def sliceFrom (offset : Nat) : Reader (List Char) := fun source place =>
  match source.from? offset with
  | some cs => .ok (some cs, place)
  | none => .error (.torn offset)

def slice (start stop : Nat) : Reader (List Char) := fun source place =>
  match source.between? start stop with
  | some cs => .ok (some cs, place)
  | none => .error (.torn stop)

def rest : Reader (List Char) := do sliceFrom (← place)

def peek : Reader (Option Char) := do return (← rest).head?

def isDone : Reader Bool := fun source place => .ok (some (source.size ≤ place), place)

def errorAt (offset : Nat) : Reader α := do
  let cs ← sliceFrom offset
  halt (.failed (.unexpected (String.ofList (cs.take 24)) offset))

def unexpected : Reader α := do errorAt (← place)

def build (c : Constructor) (operands : List Expr) : Reader Expr := fun _ place =>
  match c.build operands with
  | .ok e => .ok (some e, place)
  | .error refusal => .error (.failed (.ofRefusal refusal))

/-- Goes back if the reader does not match. -/
def attempt (reader : Reader α) : Reader α := fun source place =>
  match reader source place with
  | .error stop => .error stop
  | .ok (none, _) => .ok (none, place)
  | .ok (some a, next) => .ok (some a, next)

/-- Matches in any case, and tells whether the reader did. -/
def observe (reader : Reader α) : Reader (Option α) := fun source place =>
  match reader source place with
  | .error stop => .error stop
  | .ok (result, next) => .ok (some result, next)

def optional (reader : Reader α) : Reader (Option α) := observe (attempt reader)

/-- Goes from state to state until a step gives a result. Each step before the last must move on. -/
def loop (step : σ → Reader (σ ⊕ α)) (s : σ) : Reader α := fun source place =>
  match step s source place with
  | .error stop => .error stop
  | .ok (none, next) => .ok (none, next)
  | .ok (some (.inr a), next) => .ok (some a, next)
  | .ok (some (.inl s), next) =>
    if place < next ∧ next ≤ source.size then loop step s source next else .error .endless
termination_by source place => source.size - place

def manyStep (reader : Reader α) (as : List α) : Reader (List α ⊕ List α) := do
  match ← optional reader with
  | some a => return .inl (as ++ [a])
  | none => return .inr as

def many (reader : Reader α) : Reader (List α) := loop (manyStep reader) []

def firstOf : List (Reader α) → Reader α
  | [] => failure
  | reader :: readers => reader <|> firstOf readers

def nextIs (c : Char) : Reader Bool := do
  if (← peek) = some c then
    goTo ((← place) + c.utf8Size)
    return true
  else return false

def nextIsEither (c d : Char) : Reader Bool := do
  if ← nextIs c then return true else nextIs d

def char (c : Char) : Reader Unit := do
  if ← nextIs c then return () else failure

def takeWhile (p : Char → Bool) : Reader (List Char) := do
  let start ← place
  let cs ← rest
  let stop := start + bytesOf (cs.takeWhile p)
  goTo stop
  slice start stop

/-- Skips blanks and tells whether there were some. -/
def blanks : Reader Bool := do return !(← takeWhile Text.isBlank).isEmpty

end Reader
end Grammar
end SqlFragment
