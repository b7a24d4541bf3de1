import SqlFragment.Operators
import SqlFragment.Text.Blank

/-
Rules are readers without bytes: they read from the front of what is left of a text. A rule that does
not match leaves the text as it was, so that another can be tried; a fault ends the reading. What
rules give on a text is told forwards and backwards: a rule built from others gives what they give,
and what it gives comes from them.
-/
namespace SqlFragment.Grammar

inductive Fault where
  /-- The text from the place where it cannot be understood. -/
  | unexpected (rest : List Char)
  | refused (refusal : Refusal)

/-- Gives a result with the text after it, or none when the rule does not match. -/
def Rule (α : Type) := List Char → Except Fault (Option (α × List Char))

namespace Rule
variable {α β : Type}

instance : Monad Rule where
  pure a := fun cs => .ok (some (a, cs))
  bind rule next := fun cs =>
    match rule cs with
    | .error fault => .error fault
    | .ok none => .ok none
    | .ok (some (a, rest)) => next a rest

instance : Alternative Rule where
  failure := fun _ => .ok none
  orElse rule other := fun cs =>
    match rule cs with
    | .error fault => .error fault
    | .ok none => other () cs
    | .ok (some result) => .ok (some result)

theorem bind_apply (rule : Rule α) (next : α → Rule β) (cs : List Char) :
    (rule >>= next) cs =
      match rule cs with
      | .error fault => .error fault
      | .ok none => .ok none
      | .ok (some (a, rest)) => next a rest := rfl

theorem orElse_apply (rule other : Rule α) (cs : List Char) :
    (rule <|> other) cs =
      match rule cs with
      | .error fault => .error fault
      | .ok none => other cs
      | .ok (some result) => .ok (some result) := rfl

/-- A rule that has no effect but on the text. -/
def ofOption (read : List Char → Option (α × List Char)) : Rule α := fun cs => .ok (read cs)

def remaining : Rule (List Char) := fun cs => .ok (some (cs, cs))

def unexpected (place : List Char) : Rule α := fun _ => .error (.unexpected place)

def build (c : Constructor) (operands : List Expr) : Rule Expr := fun cs =>
  match c.build operands with
  | .ok e => .ok (some (e, cs))
  | .error refusal => .error (.refused refusal)

def optional (rule : Rule α) : Rule (Option α) := (some <$> rule) <|> pure none

/-- Repeats a rule as long as it matches and reads something. -/
def many (rule : Rule α) : Rule (List α) := fun cs =>
  match rule cs with
  | .error fault => .error fault
  | .ok none => .ok (some ([], cs))
  | .ok (some (a, rest)) =>
    if rest.length < cs.length then
      match many rule rest with
      | .ok (some (as, last)) => .ok (some (a :: as, last))
      | other => other
    else .ok (some ([a], rest))
termination_by cs => cs.length

def firstOf : List (Rule α) → Rule α
  | [] => failure
  | rule :: rules => rule <|> firstOf rules

/-- Skips blanks and tells whether there were some. -/
def blanks : Rule Bool := fun cs =>
  let rest := Text.skipBlank cs
  .ok (some (rest.length < cs.length, rest))

def takeWhile (p : Char → Bool) : Rule (List Char) :=
  ofOption fun cs => some (cs.takeWhile p, cs.dropWhile p)

def char (c : Char) : Rule Unit := ofOption fun cs =>
  match cs with
  | d :: rest => if d = c then some ((), rest) else none
  | [] => none

/-- The rule matches and leaves `rest`. -/
def Gives (rule : Rule α) (cs : List Char) (a : α) (rest : List Char) : Prop :=
  rule cs = .ok (some (a, rest))

/-- The rule does not match, and there is no fault. -/
def Misses (rule : Rule α) (cs : List Char) : Prop := rule cs = .ok none

section
variable {rule other : Rule α} {next : α → Rule β} {cs mid rest : List Char} {a : α} {b : β}

theorem Gives.unique {a' : α} {rest' : List Char} (first : rule.Gives cs a rest)
    (second : rule.Gives cs a' rest') : a = a' ∧ rest = rest' := by
  have same := first.symm.trans second
  simpa using same

theorem Gives.not_misses (gives : rule.Gives cs a rest) : ¬rule.Misses cs := by
  intro misses
  have same := gives.symm.trans misses
  cases same

theorem gives_pure : (pure a : Rule α).Gives cs a cs := rfl

theorem misses_failure : (failure : Rule α).Misses cs := rfl

theorem Gives.bind_eq (first : rule.Gives cs a mid) : (rule >>= next) cs = next a mid := by
  rw [bind_apply, first]

theorem Gives.bind (first : rule.Gives cs a mid) (second : (next a).Gives mid b rest) :
    (rule >>= next).Gives cs b rest := by
  rw [Gives, bind_apply, first]
  exact second

theorem Gives.bind_misses (first : rule.Gives cs a mid) (second : (next a).Misses mid) :
    (rule >>= next).Misses cs := by
  rw [Misses, bind_apply, first]
  exact second

theorem Misses.bind (first : rule.Misses cs) : (rule >>= next).Misses cs := by
  rw [Misses, bind_apply, first]

theorem Gives.orElse (first : rule.Gives cs a rest) : (rule <|> other).Gives cs a rest := by
  rw [Gives, orElse_apply, first]

theorem Misses.orElse_eq (first : rule.Misses cs) : (rule <|> other) cs = other cs := by
  rw [orElse_apply, first]

theorem Misses.orElse (first : rule.Misses cs) (second : other.Gives cs a rest) :
    (rule <|> other).Gives cs a rest := by
  rw [Gives, orElse_apply, first]
  exact second

theorem Misses.orElse_misses (first : rule.Misses cs) (second : other.Misses cs) :
    (rule <|> other).Misses cs := by
  rw [Misses, orElse_apply, first]
  exact second

theorem orElse_failure (rule : Rule α) : (rule <|> failure) = rule := by
  funext cs
  rw [orElse_apply]
  cases rule cs with
  | error fault => rfl
  | ok result => cases result <;> rfl

theorem bind_error {fault : Fault} (first : rule cs = .error fault) :
    (rule >>= next) cs = .error fault := by
  rw [bind_apply, first]

theorem orElse_error {fault : Fault} (first : rule cs = .error fault) :
    (rule <|> other) cs = .error fault := by
  rw [orElse_apply, first]

theorem gives_bind (gives : (rule >>= next).Gives cs b rest) :
    ∃ a mid, rule.Gives cs a mid ∧ (next a).Gives mid b rest := by
  rw [Gives, bind_apply] at gives
  split at gives
  · cases gives
  · cases gives
  · rename_i a mid first
    exact ⟨a, mid, first, gives⟩

theorem gives_orElse (gives : (rule <|> other).Gives cs a rest) :
    rule.Gives cs a rest ∨ (rule.Misses cs ∧ other.Gives cs a rest) := by
  rw [Gives, orElse_apply] at gives
  split at gives
  · cases gives
  · rename_i misses
    exact .inr ⟨misses, gives⟩
  · rename_i result first
    exact .inl (first.trans gives)

theorem misses_orElse (misses : (rule <|> other).Misses cs) :
    rule.Misses cs ∧ other.Misses cs := by
  rw [Misses, orElse_apply] at misses
  split at misses
  · cases misses
  · rename_i first
    exact ⟨first, misses⟩
  · cases misses

theorem misses_bind (misses : (rule >>= next).Misses cs) :
    rule.Misses cs ∨ ∃ a mid, rule.Gives cs a mid ∧ (next a).Misses mid := by
  rw [Misses, bind_apply] at misses
  split at misses
  · cases misses
  · rename_i first
    exact .inl first
  · rename_i a mid first
    exact .inr ⟨a, mid, first, misses⟩

theorem gives_firstOf {rules : List (Rule α)} (gives : (firstOf rules).Gives cs a rest) :
    ∃ rule ∈ rules, rule.Gives cs a rest := by
  induction rules with
  | nil => cases gives
  | cons rule rules ih =>
    obtain first | ⟨-, later⟩ := gives_orElse gives
    · exact ⟨rule, by simp, first⟩
    · obtain ⟨found, member, gives⟩ := ih later
      exact ⟨found, List.mem_cons_of_mem rule member, gives⟩

theorem misses_firstOf {rules : List (Rule α)} (misses : ∀ rule ∈ rules, rule.Misses cs) :
    (firstOf rules).Misses cs := by
  induction rules with
  | nil => exact misses_failure
  | cons rule rules ih =>
    exact (misses rule (by simp)).orElse_misses
      (ih fun r member => misses r (List.mem_cons_of_mem rule member))

theorem misses_of_firstOf {rules : List (Rule α)} (misses : (firstOf rules).Misses cs) :
    ∀ rule ∈ rules, rule.Misses cs := by
  induction rules with
  | nil => simp
  | cons rule rules ih =>
    obtain ⟨first, later⟩ := misses_orElse misses
    exact List.forall_mem_cons.2 ⟨first, ih later⟩

theorem Gives.map (gives : rule.Gives cs a rest) (f : α → β) :
    (f <$> rule).Gives cs (f a) rest := gives.bind gives_pure

theorem gives_map {f : α → β} (gives : (f <$> rule).Gives cs b rest) :
    ∃ a, rule.Gives cs a rest ∧ b = f a := by
  obtain ⟨a, mid, first, second⟩ := gives_bind gives
  cases second
  exact ⟨a, first, rfl⟩

theorem Gives.seqRight {after : Rule β} (first : rule.Gives cs a mid)
    (second : after.Gives mid b rest) : (rule *> after).Gives cs b rest := first.bind second

theorem Misses.seqRight {after : Rule β} (first : rule.Misses cs) : (rule *> after).Misses cs :=
  first.bind

theorem gives_seqRight {after : Rule β} (gives : (rule *> after).Gives cs b rest) :
    ∃ a mid, rule.Gives cs a mid ∧ after.Gives mid b rest := gives_bind gives

theorem Gives.optional (gives : rule.Gives cs a rest) : (optional rule).Gives cs (some a) rest :=
  (gives.map some).orElse

theorem Misses.optional (misses : rule.Misses cs) : (Rule.optional rule).Gives cs none cs :=
  Misses.orElse (Misses.bind misses) gives_pure

theorem gives_optional {o : Option α} (gives : (Rule.optional rule).Gives cs o rest) :
    (∃ a, o = some a ∧ rule.Gives cs a rest) ∨ (o = none ∧ rest = cs) := by
  obtain first | ⟨-, second⟩ := gives_orElse gives
  · obtain ⟨a, given, rfl⟩ := gives_map first
    exact .inl ⟨a, rfl, given⟩
  · cases second
    exact .inr ⟨rfl, rfl⟩

theorem Misses.many (misses : rule.Misses cs) : Gives (Rule.many rule) cs [] cs := by
  change Rule.many rule cs = _
  rw [Rule.many, misses]

theorem Gives.many {as : List α} (first : rule.Gives cs a mid) (shorter : mid.length < cs.length)
    (later : Gives (Rule.many rule) mid as rest) : Gives (Rule.many rule) cs (a :: as) rest := by
  have tail : Rule.many rule mid = .ok (some (as, rest)) := later
  change Rule.many rule cs = _
  rw [Rule.many, first]
  simp only [shorter, ↓reduceIte, tail]

theorem gives_many {as : List α} (gives : Gives (Rule.many rule) cs as rest) :
    (as = [] ∧ rest = cs ∧ rule.Misses cs) ∨
      ∃ a mid tail, as = a :: tail ∧ rule.Gives cs a mid ∧
        ((mid.length < cs.length ∧ Gives (Rule.many rule) mid tail rest) ∨
          (¬mid.length < cs.length ∧ tail = [] ∧ rest = mid)) := by
  change Rule.many rule cs = _ at gives
  rw [Rule.many] at gives
  split at gives
  · cases gives
  · rename_i misses
    cases gives
    exact .inl ⟨rfl, rfl, misses⟩
  · rename_i a mid first
    refine .inr ⟨a, mid, ?_⟩
    split at gives
    · rename_i shorter
      split at gives
      · rename_i tail last later
        cases gives
        exact ⟨tail, rfl, first, .inl ⟨shorter, later⟩⟩
      · rename_i other
        cases as with
        | nil => exact absurd gives (other [] rest)
        | cons b bs => exact absurd gives (other (b :: bs) rest)
    · rename_i longer
      cases gives
      exact ⟨[], rfl, first, .inr ⟨longer, rfl, rfl⟩⟩

theorem gives_of_mem_many {as : List α} (gives : Gives (Rule.many rule) cs as rest) (mem : a ∈ as) :
    ∃ start last, rule.Gives start a last := by
  induction size : cs.length using Nat.strongRecOn generalizing cs as with
  | ind n ih =>
    subst size
    obtain ⟨rfl, -, -⟩ | ⟨b, mid, tail, rfl, first, later⟩ := gives_many gives
    · cases mem
    · obtain rfl | inside := List.mem_cons.mp mem
      · exact ⟨cs, mid, first⟩
      · obtain ⟨shorter, gives⟩ | ⟨-, rfl, -⟩ := later
        · exact ih mid.length shorter gives inside rfl
        · cases inside

/-- A repeated rule that always reads something ends where it does not match. -/
theorem misses_after_many {as : List α}
    (shrinks : ∀ {start a last}, rule.Gives start a last → last.length < start.length)
    (gives : Gives (Rule.many rule) cs as rest) : rule.Misses rest := by
  induction size : cs.length using Nat.strongRecOn generalizing cs as with
  | ind n ih =>
    subst size
    obtain ⟨rfl, rfl, misses⟩ | ⟨a, mid, tail, rfl, first, later⟩ := gives_many gives
    · exact misses
    · obtain ⟨shorter, gives⟩ | ⟨longer, -, -⟩ := later
      · exact ih mid.length shorter gives rfl
      · exact absurd (shrinks first) longer

end

section
variable {cs rest : List Char}

theorem gives_remaining : remaining.Gives cs cs cs := rfl

theorem gives_blanks : blanks.Gives cs ((Text.skipBlank cs).length < cs.length) (Text.skipBlank cs) :=
  rfl

theorem gives_takeWhile (p : Char → Bool) :
    (takeWhile p).Gives cs (cs.takeWhile p) (cs.dropWhile p) := rfl

theorem gives_char (c : Char) : (char c).Gives (c :: cs) () cs := by
  simp [Gives, char, ofOption]

theorem misses_char {c : Char} (other : cs.head? ≠ some c) : (char c).Misses cs := by
  cases cs with
  | nil => rfl
  | cons d cs =>
    have other : d ≠ c := by simpa using other
    simp [Misses, char, ofOption, other]

theorem gives_unexpected {α : Type} {place : List Char} {a : α} :
    ¬(unexpected place : Rule α).Gives cs a rest := by
  intro gives
  cases gives

end

end Rule
end SqlFragment.Grammar
