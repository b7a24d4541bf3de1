import SqlFragment.Grammar.Reader

/-
Names and tokens. Tokens match in any case; a space in a token stands for a run of blanks, and a
token that ends in a letter ends where the word ends.
-/
namespace SqlFragment.Grammar

def isNameStart (c : Char) : Bool := c.isAlpha || c == '_' || c == '@' || c == '#'

def isNamePart (c : Char) : Bool := isNameStart c || c.isDigit

def isParameterPart (c : Char) : Bool := c.isAlphanum || c == '_'

/-- The characters of a text with the byte at which each begins, counted from the front. -/
structure Indexed where
  front : Nat
  rest : List Char

def Indexed.next? (s : Indexed) : Option ((Nat × Char) × Indexed) :=
  match s.rest with
  | c :: rest => some ((s.front, c), ⟨s.front + c.utf8Size, rest⟩)
  | [] => none

/-- Where a run of blanks ends that has been found up to `stop`. -/
def blanksEnd (front stop : Nat) : List Char → Indexed × Nat
  | c :: rest =>
    if Text.isBlank c then blanksEnd (front + c.utf8Size) (front + c.utf8Size) rest
    else (⟨front, c :: rest⟩, stop)
  | [] => (⟨front, []⟩, stop)

/-- The byte behind a token, if the text begins with it. -/
def tokenEnd? : List Char → Indexed → Nat → Option Nat
  | [], _, stop => some stop
  | ' ' :: token, s, _ =>
    match s.next? with
    | some ((index, c), s) =>
      if Text.isBlank c then
        let (s, stop) := blanksEnd s.front (index + c.utf8Size) s.rest
        tokenEnd? token s stop
      else none
    | none => none
  | t :: token, s, _ =>
    match s.next? with
    | some ((index, c), s) =>
      if c.toLower = t.toLower then tokenEnd? token s (index + c.utf8Size) else none
    | none => none

/-- Whether a token may end before `rest`: a word ends with the token, and a blank or the end of the
text follows where one must. -/
def endsBefore (token : List Char) (blankAfter : Bool) (rest : List Char) : Bool :=
  let wordEnds :=
    match token.getLast?, rest with
    | some last, next :: _ => !(last.isAlpha && isNamePart next)
    | _, _ => true
  let spaced :=
    match rest with
    | next :: _ => !blankAfter || Text.isBlank next
    | [] => true
  wordEnds && spaced

namespace Reader

/-- The byte at which a token ends, if it comes next. -/
def matchToken (token : String) : Reader (Option Nat) := do
  let start ← place
  let cs ← rest
  return (tokenEnd? token.toList ⟨0, cs⟩ 0).map (start + ·)

def fits (token : String) (stop : Nat) (blankAfter : Bool) : Reader Bool := do
  return endsBefore token.toList blankAfter (← sliceFrom stop)

def tokenEnd (token : String) (blankAfter : Bool) : Reader (Option Nat) := do
  match ← matchToken token with
  | some stop => if ← fits token stop blankAfter then return some stop else return none
  | none => return none

def token (token : String) (blankAfter : Bool) : Reader Unit := do
  match ← tokenEnd token blankAfter with
  | some stop => goTo stop
  | none => failure

def keyword (word : String) : Reader Unit := token word false

/-- Whether a keyword comes next; nothing is read. -/
def comesNext (word : String) : Reader Bool := do return (← tokenEnd word false).isSome

def name : Reader String := do
  match ← peek with
  | some c => if isNameStart c then String.ofList <$> takeWhile isNamePart else failure
  | none => failure

/-- A point that no name follows is not part of the path. -/
def pathStep (segments : Path) : Reader (Path ⊕ Path) := do
  if segments.length < 4 then
    match ← optional (char '.' *> name) with
    | some segment => return .inl (segments ++ [segment])
    | none => return .inr segments
  else return .inr segments

/-- A path of one to four names. -/
def path : Reader Expr := do
  let first ← name
  let segments ← loop pathStep [first]
  return .column segments

def parameter : Reader Expr := do
  char ':'
  let cs ← takeWhile isParameterPart
  if cs.isEmpty then failure else return .parameter (String.ofList cs)

end Reader
end SqlFragment.Grammar
