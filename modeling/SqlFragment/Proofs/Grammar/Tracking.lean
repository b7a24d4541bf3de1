import SqlFragment.Proofs.Grammar.Rule
import SqlFragment.Proofs.Grammar.Source

/-
Readers and rules in step. A reader that is at a byte between two characters does what a rule does on
the characters from there on: it ends between two characters again, and where the rule leaves off.
Both are carried through the ways of building readers and rules together. A part that follows another
one is run at a shorter text than its host when the first one has read something, so what is known
for shorter texts is enough for what nests.
-/
namespace SqlFragment

def Operators.Has (ops : Operators) (c : Constructor) : Prop :=
  c ∈ ops.unary.map (·.2.constructor) ∨ c ∈ ops.binary.map (·.2.constructor)

/-- An operator of the grammar can refuse operands in this way. -/
def Operators.Refuses (ops : Operators) (refusal : Refusal) : Prop :=
  ∃ c operands, ops.Has c ∧ Constructor.build c operands = .error refusal

namespace Grammar
open Source
variable {α β : Type}

theorem Rule.bind_assoc {γ : Type} (rule : Rule α) (next : α → Rule β) (last : β → Rule γ) :
    rule >>= next >>= last = rule >>= fun a => next a >>= last := by
  funext cs
  rw [bind_apply, bind_apply, bind_apply]
  cases rule cs with
  | error fault => rfl
  | ok result => cases result <;> rfl

theorem Rule.optional_apply (rule : Rule α) (cs : List Char) :
    Rule.optional rule cs =
      match rule cs with
      | .error fault => .error fault
      | .ok none => .ok (some (none, cs))
      | .ok (some (a, rest)) => .ok (some (some a, rest)) := by
  have mapped : (some <$> rule) cs = (rule >>= fun a => pure (some a)) cs := rfl
  rw [Rule.optional, Rule.orElse_apply, mapped, Rule.bind_apply]
  cases rule cs with
  | error fault => rfl
  | ok result => cases result <;> rfl

namespace Rule

/-- The results of a repeated rule behind those that are there already. -/
def manyAfter (rule : Rule α) (as : List α) : Rule (List α) := fun cs =>
  match Rule.many rule cs with
  | .ok (some (bs, rest)) => .ok (some (as ++ bs, rest))
  | other => other

section
variable {rule : Rule α} {as : List α} {cs mid : List Char} {a : α}

theorem many_of_gives (first : rule cs = .ok (some (a, mid))) (shorter : mid.length < cs.length) :
    Rule.many rule cs = manyAfter rule [a] mid := by
  rw [Rule.many, first]
  simp only [shorter, ↓reduceIte]
  rfl

theorem manyAfter_of_error {fault : Fault} (first : rule cs = .error fault) :
    manyAfter rule as cs = .error fault := by
  rw [manyAfter, Rule.many, first]

theorem manyAfter_of_misses (misses : rule.Misses cs) :
    manyAfter rule as cs = .ok (some (as, cs)) := by
  have none : Rule.many rule cs = .ok (some ([], cs)) := misses.many
  rw [manyAfter, none]
  simp only [List.append_nil]

theorem manyAfter_append (front : List α) (cs : List Char) :
    manyAfter rule (front ++ as) cs =
      match manyAfter rule as cs with
      | .ok (some (bs, rest)) => .ok (some (front ++ bs, rest))
      | other => other := by
  unfold manyAfter
  cases Rule.many rule cs with
  | error fault => rfl
  | ok result =>
    cases result with
    | none => rfl
    | some result => simp only [List.append_assoc]

theorem manyAfter_of_gives (first : rule cs = .ok (some (a, mid)))
    (shorter : mid.length < cs.length) : manyAfter rule as cs = manyAfter rule (as ++ [a]) mid := by
  rw [manyAfter_append, manyAfter, many_of_gives first shorter]

theorem manyAfter_nil (rule : Rule α) : manyAfter rule [] = Rule.many rule := by
  funext cs
  rw [manyAfter]
  cases Rule.many rule cs with
  | error fault => rfl
  | ok result => cases result <;> rfl

end

end Rule

namespace Reader

/-- What comes out of a reader and of a rule that are in step. The rule, which is run on `cs`, has
read something where it `reads`. -/
inductive Follows (ops : Operators) (text cs : List Char) (reads : Bool) :
    Except Stop (Option α × Nat) → Except Fault (Option (α × List Char)) → Prop where
  | found {a : α} {next : Nat} {rest : List Char} (there : (ofChars text).from? next = some rest)
      (behind : rest <:+ cs) (shorter : reads = true → rest.length < cs.length) :
      Follows ops text cs reads (.ok (some a, next)) (.ok (some (a, rest)))
  | missed {next : Nat} {rest : List Char} (there : (ofChars text).from? next = some rest) :
      Follows ops text cs reads (.ok (none, next)) (.ok none)
  | unexpected {offset : Nat} {rest : List Char} (there : (ofChars text).from? offset = some rest) :
      Follows ops text cs reads
        (.error (.failed (.unexpected (String.ofList (rest.take 24)) offset)))
        (.error (.unexpected rest))
  | refused {refusal : Refusal} (own : ops.Refuses refusal) :
      Follows ops text cs reads (.error (.failed (.ofRefusal refusal))) (.error (.refused refusal))

/-- A reader that is in step with a rule wherever less than `size` is left of the text. -/
def Tracks (ops : Operators) (text : List Char) (size : Nat) (reads : Bool) (reader : Reader α)
    (rule : Rule α) : Prop :=
  ∀ place cs, (ofChars text).from? place = some cs → cs.length < size →
    Follows ops text cs reads (reader (ofChars text) place) (rule cs)

/-- A reader that is still where it was if it does not match. -/
def Restores (reader : Reader α) : Prop :=
  ∀ source place next, reader source place = .ok (none, next) → next = place

/-- A reader that always matches. -/
def Answers (reader : Reader α) : Prop :=
  ∀ source place next, reader source place ≠ .ok (none, next)

theorem bind_apply (reader : Reader α) (next : α → Reader β) (source : Source) (place : Nat) :
    (reader >>= next) source place =
      match reader source place with
      | .error stop => .error stop
      | .ok (none, place) => .ok (none, place)
      | .ok (some a, place) => next a source place := rfl

theorem map_apply (f : α → β) (reader : Reader α) (source : Source) (place : Nat) :
    (f <$> reader) source place =
      match reader source place with
      | .error stop => .error stop
      | .ok (none, place) => .ok (none, place)
      | .ok (some a, place) => .ok (some (f a), place) := rfl

theorem orElse_apply (reader other : Reader α) (source : Source) (place : Nat) :
    (reader <|> other) source place =
      match reader source place with
      | .error stop => .error stop
      | .ok (none, place) => other source place
      | .ok (some a, place) => .ok (some a, place) := rfl

section
variable {reader other : Reader α} {next : α → Reader β}

theorem Answers.restores (answers : Answers reader) : Restores reader :=
  fun source place _ missed => absurd missed (answers source place _)

theorem answers_pure (a : α) : Answers (pure a) := nofun

theorem answers_goTo (offset : Nat) : Answers (goTo offset) := by
  intro source place next missed
  unfold goTo at missed
  split at missed <;> cases missed

theorem answers_build (c : Constructor) (operands : List Expr) : Answers (build c operands) := by
  intro source place next missed
  unfold build at missed
  split at missed <;> cases missed

theorem answers_observe (reader : Reader α) : Answers (observe reader) := by
  intro source place next missed
  unfold observe at missed
  split at missed <;> cases missed

theorem Answers.bind (first : Answers reader) (second : ∀ a, Answers (next a)) :
    Answers (reader >>= next) := by
  intro source place last missed
  rw [bind_apply] at missed
  split at missed
  · cases missed
  · rename_i here
    exact first source place _ here
  · exact second _ _ _ _ missed

theorem Answers.map (answers : Answers reader) (f : α → β) : Answers (f <$> reader) :=
  answers.bind fun a => answers_pure (f a)

theorem answers_loop {σ : Type} {step : σ → Reader (σ ⊕ α)} (each : ∀ s, Answers (step s)) (s : σ) :
    Answers (loop step s) := by
  intro source place
  induction left : source.size - place using Nat.strongRecOn generalizing s place with
  | ind count ih =>
    intro last missed
    rw [loop] at missed
    split at missed
    · cases missed
    · rename_i here
      exact each s source place _ here
    · cases missed
    · split at missed
      · rename_i further
        exact ih _ (by omega) _ _ rfl last missed
      · cases missed

theorem restores_failure : Restores (failure : Reader α) := by
  rintro source place next ⟨⟩
  rfl

theorem restores_attempt (reader : Reader α) : Restores (attempt reader) := by
  intro source place next missed
  unfold attempt at missed
  split at missed
  · cases missed
  · cases missed
    rfl
  · cases missed

theorem Restores.orElse (first : Restores reader) (second : Restores other) :
    Restores (reader <|> other) := by
  intro source place last missed
  rw [orElse_apply] at missed
  split at missed
  · cases missed
  · rename_i here
    obtain rfl := first source place _ here
    exact second _ _ _ missed
  · cases missed

theorem restores_firstOf {readers : List (Reader α)} (each : ∀ reader ∈ readers, Restores reader) :
    Restores (firstOf readers) := by
  induction readers with
  | nil => exact restores_failure
  | cons reader readers ih =>
    obtain ⟨first, later⟩ := List.forall_mem_cons.mp each
    exact first.orElse (ih later)

/-- What matches in any case may follow. -/
theorem Restores.bind (first : Restores reader) (second : ∀ a, Answers (next a)) :
    Restores (reader >>= next) := by
  intro source place last missed
  rw [bind_apply] at missed
  split at missed
  · cases missed
  · rename_i here
    cases missed
    exact first source place _ here
  · exact absurd missed (second _ _ _ _)

end

/-- A reader that always matches and does not move. -/
def Looks (reader : Reader α) : Prop :=
  ∀ source place, (∃ stop, reader source place = .error stop) ∨
    ∃ a, reader source place = .ok (some a, place)

section
variable {reader : Reader α} {next : α → Reader β}

theorem looks_pure (a : α) : Looks (pure a) := fun _ _ => .inr ⟨a, rfl⟩

theorem looks_place : Looks place := fun _ place => .inr ⟨place, rfl⟩

theorem looks_sliceFrom (offset : Nat) : Looks (sliceFrom offset) := by
  intro source place
  rw [sliceFrom]
  split
  · exact .inr ⟨_, rfl⟩
  · exact .inl ⟨_, rfl⟩

theorem Looks.bind (first : Looks reader) (second : ∀ a, Looks (next a)) :
    Looks (reader >>= next) := by
  intro source place
  obtain ⟨stop, stopped⟩ | ⟨a, seen⟩ := first source place
  · exact .inl ⟨stop, by rw [bind_apply, stopped]⟩
  · rw [bind_apply, seen]
    exact second a source place

theorem looks_rest : Looks rest := looks_place.bind looks_sliceFrom

theorem Looks.restores_bind (first : Looks reader) (second : ∀ a, Restores (next a)) :
    Restores (reader >>= next) := by
  intro source place last missed
  rw [bind_apply] at missed
  obtain ⟨stop, stopped⟩ | ⟨a, seen⟩ := first source place
  · rw [stopped] at missed
    cases missed
  · rw [seen] at missed
    exact second a source place last missed

end

theorem bind_of_some {reader : Reader α} {next : α → Reader β} {source : Source} {place after : Nat}
    {a : α} (first : reader source place = .ok (some a, after)) :
    (reader >>= next) source place = next a source after := by
  rw [bind_apply, first]

theorem map_of_some {reader : Reader α} {source : Source} {place after : Nat} {a : α} (f : α → β)
    (first : reader source place = .ok (some a, after)) :
    (f <$> reader) source place = .ok (some (f a), after) := by
  rw [map_apply, first]

section
variable {source : Source} {text cs front rest : List Char} {place offset : Nat} {c : Char}

theorem goTo_apply (there : source.from? offset = some rest) :
    goTo offset source place = .ok (some (), offset) := by
  rw [goTo, there]

theorem sliceFrom_apply (there : source.from? offset = some cs) :
    sliceFrom offset source place = .ok (some cs, place) := by
  rw [sliceFrom, there]

theorem slice_apply {start : Nat} (here : (ofChars text).from? start = some (front ++ rest))
    (there : (ofChars text).from? offset = some rest) :
    slice start offset (ofChars text) place = .ok (some front, place) := by
  rw [slice, between?_append here there]

theorem rest_apply (here : source.from? place = some cs) :
    Reader.rest source place = .ok (some cs, place) :=
  sliceFrom_apply here

theorem peek_apply (here : source.from? place = some cs) :
    peek source place = .ok (some cs.head?, place) := by
  rw [peek, bind_of_some (rest_apply here)]
  rfl

theorem nextIs_apply_cons (here : (ofChars text).from? place = some (c :: rest)) :
    nextIs c (ofChars text) place = .ok (some true, place + c.utf8Size) := by
  have found : (c :: rest).head? = some c := rfl
  have moved : goTo (place + c.utf8Size) (ofChars text) place = .ok (some (), place + c.utf8Size) :=
    goTo_apply (from?_cons here)
  rw [nextIs, bind_of_some (peek_apply here), if_pos found]
  exact bind_of_some moved

theorem nextIs_apply_other (here : source.from? place = some cs) (other : cs.head? ≠ some c) :
    nextIs c source place = .ok (some false, place) := by
  rw [nextIs, bind_of_some (peek_apply here), if_neg other]
  rfl

theorem from?_dropWhile (p : Char → Bool) (here : (ofChars text).from? place = some cs) :
    (ofChars text).from? (place + bytesOf (cs.takeWhile p)) = some (cs.dropWhile p) := by
  rw [← List.takeWhile_append_dropWhile (p := p) (l := cs)] at here
  exact from?_append here

theorem takeWhile_apply (p : Char → Bool) (here : (ofChars text).from? place = some cs) :
    takeWhile p (ofChars text) place =
      .ok (some (cs.takeWhile p), place + bytesOf (cs.takeWhile p)) := by
  have there := from?_dropWhile p here
  have parts : (ofChars text).from? place = some (cs.takeWhile p ++ cs.dropWhile p) := by
    rw [List.takeWhile_append_dropWhile, here]
  have whole : takeWhile p (ofChars text) place = (do
      let cs ← Reader.rest
      goTo (place + bytesOf (cs.takeWhile p))
      slice place (place + bytesOf (cs.takeWhile p))) (ofChars text) place := rfl
  rw [whole, bind_of_some (rest_apply here), bind_of_some (goTo_apply there), slice_apply parts there]

end

section
variable {ops : Operators} {text cs mid rest : List Char} {size : Nat} {reads reads' : Bool}
  {place offset : Nat} {reader other : Reader α} {rule other' : Rule α} {next : α → Reader β}
  {next' : α → Rule β}

theorem Follows.back {outcome : Except Stop (Option β × Nat)}
    {result : Except Fault (Option (β × List Char))}
    (follows : Follows ops text mid reads outcome result) (behind : mid <:+ cs)
    (ahead : reads' = true → reads = true ∨ mid.length < cs.length) :
    Follows ops text cs reads' outcome result := by
  cases follows with
  | found there suffix shorter =>
    refine .found there (suffix.trans behind) fun strict => ?_
    have least := behind.length_le
    rcases ahead strict with read | less
    · have := shorter read
      omega
    · have := suffix.length_le
      omega
  | missed there => exact .missed there
  | unexpected there => exact .unexpected there
  | refused own => exact .refused own

theorem Follows.behind {outcome : Except Stop (Option β × Nat)}
    {result : Except Fault (Option (β × List Char))}
    (follows : Follows ops text mid reads outcome result) (behind : mid <:+ cs) :
    Follows ops text cs false outcome result :=
  follows.back behind nofun

/-- A match where nothing is read. -/
theorem Follows.stays {a : α} {place : Nat} (here : (ofChars text).from? place = some cs) :
    Follows ops text cs false (.ok (some a, place)) (.ok (some (a, cs))) :=
  .found here (List.suffix_refl cs) nofun

theorem Tracks.smaller {size' : Nat} (tracks : Tracks ops text size reads reader rule)
    (less : size' ≤ size) : Tracks ops text size' reads reader rule := by
  intro place cs here short
  exact tracks place cs here (by omega)

theorem Tracks.weaken (tracks : Tracks ops text size reads reader rule) :
    Tracks ops text size false reader rule := by
  intro place cs here short
  exact (tracks place cs here short).behind (List.suffix_refl cs)

theorem tracks_pure (a : α) : Tracks ops text size false (pure a) (pure a) := by
  intro place cs here short
  exact .stays here

theorem tracks_failure : Tracks ops text size reads (failure : Reader α) failure := by
  intro place cs here short
  exact .missed here

theorem tracks_errorAt (there : (ofChars text).from? offset = some rest) :
    Tracks ops text size reads (errorAt offset : Reader α) (Rule.unexpected rest) := by
  intro place cs here short
  rw [errorAt, bind_apply, sliceFrom_apply there]
  exact .unexpected there

theorem tracks_unexpected :
    Tracks ops text size reads (unexpected : Reader α) (Rule.remaining >>= Rule.unexpected) := by
  intro place cs here short
  exact tracks_errorAt here place cs here short

theorem tracks_build {c : Constructor} (operands : List Expr) (own : ops.Has c) :
    Tracks ops text size false (build c operands) (Rule.build c operands) := by
  intro place cs here short
  unfold build Rule.build
  cases built : c.build operands with
  | ok e => exact .stays here
  | error refusal => exact .refused ⟨c, operands, own, built⟩

/-- What comes next is run where the first one has got to. -/
theorem Tracks.bind_of (first : Tracks ops text size reads' reader rule)
    (second : ∀ place cs a mid after, (ofChars text).from? place = some cs → cs.length < size →
      rule.Gives cs a mid → (ofChars text).from? after = some mid →
      mid <:+ cs → (reads' = true → mid.length < cs.length) →
      Follows ops text cs reads (next a (ofChars text) after) (next' a mid)) :
    Tracks ops text size reads (reader >>= next) (rule >>= next') := by
  intro place cs here short
  have follows := first place cs here short
  rw [bind_apply, Rule.bind_apply]
  generalize reader (ofChars text) place = outcome at follows
  generalize made : rule cs = result at follows
  cases follows with
  | found there behind shorter => exact second place cs _ _ _ here short made there behind shorter
  | missed there => exact .missed there
  | unexpected there => exact .unexpected there
  | refused own => exact .refused own

theorem Tracks.bind (first : Tracks ops text size reads' reader rule)
    (second : ∀ a, Tracks ops text size reads (next a) (next' a)) :
    Tracks ops text size reads (reader >>= next) (rule >>= next') := by
  apply first.bind_of
  intro place cs a mid after here short _ there behind _
  have least := behind.length_le
  exact (second a after mid there (by omega)).back behind .inl

/-- After a reader that reads something the next one is run at a shorter text. -/
theorem Tracks.bind_reads (first : Tracks ops text size true reader rule)
    (second : ∀ a, Tracks ops text (size - 1) false (next a) (next' a)) :
    Tracks ops text size true (reader >>= next) (rule >>= next') := by
  apply first.bind_of
  intro place cs a mid after here short _ there behind shorter
  have shorter := shorter rfl
  exact (second a after mid there (by omega)).back behind fun _ => .inr shorter

theorem Tracks.map (tracks : Tracks ops text size reads reader rule) (f : α → β) :
    Tracks ops text size reads (f <$> reader) (f <$> rule) := by
  apply tracks.bind_of
  intro place cs a mid after here short _ there behind shorter
  exact .found there behind shorter

theorem tracks_place {next : Nat → Reader β} {next' : List Char → Rule β}
    (tracks : ∀ start rest, (ofChars text).from? start = some rest →
      Tracks ops text size reads (next start) (next' rest)) :
    Tracks ops text size reads (Reader.place >>= next) (Rule.remaining >>= next') := by
  intro place cs here short
  exact tracks place cs here place cs here short

theorem Tracks.orElse (first : Tracks ops text size reads reader rule) (back : Restores reader)
    (second : Tracks ops text size reads other other') :
    Tracks ops text size reads (reader <|> other) (rule <|> other') := by
  intro place cs here short
  have follows := first place cs here short
  rw [orElse_apply, Rule.orElse_apply]
  generalize made : reader (ofChars text) place = outcome at follows
  generalize rule cs = result at follows
  cases follows with
  | found there behind shorter => exact .found there behind shorter
  | missed there =>
    cases back _ _ _ made
    exact second _ cs here short
  | unexpected there => exact .unexpected there
  | refused own => exact .refused own

theorem Tracks.attempt (tracks : Tracks ops text size reads reader rule) :
    Tracks ops text size reads (attempt reader) rule := by
  intro place cs here short
  have follows := tracks place cs here short
  rw [Reader.attempt]
  generalize reader (ofChars text) place = outcome at follows
  generalize rule cs = result at follows
  cases follows with
  | found there behind shorter => exact .found there behind shorter
  | missed there => exact .missed here
  | unexpected there => exact .unexpected there
  | refused own => exact .refused own

theorem tracks_firstOf {ι : Type} {entries : List ι} {readers : ι → Reader α} {rules : ι → Rule α}
    (each : ∀ entry ∈ entries, Tracks ops text size reads (readers entry) (rules entry))
    (back : ∀ entry ∈ entries, Restores (readers entry)) :
    Tracks ops text size reads (firstOf (entries.map readers)) (Rule.firstOf (entries.map rules)) := by
  induction entries with
  | nil => exact tracks_failure
  | cons entry entries ih =>
    obtain ⟨first, later⟩ := List.forall_mem_cons.mp each
    obtain ⟨restores, others⟩ := List.forall_mem_cons.mp back
    exact first.orElse restores (ih later others)

theorem Tracks.optional (tracks : Tracks ops text size reads reader rule) :
    Tracks ops text size false (Reader.optional reader) (Rule.optional rule) := by
  intro place cs here short
  have follows := tracks.attempt place cs here short
  have back := restores_attempt reader (ofChars text) place
  rw [Reader.optional, observe, Rule.optional_apply]
  generalize Reader.attempt reader (ofChars text) place = outcome at follows back
  generalize rule cs = result at follows
  cases follows with
  | found there behind shorter => exact .found there behind nofun
  | missed there =>
    cases back _ rfl
    exact .stays here
  | unexpected there => exact .unexpected there
  | refused own => exact .refused own

theorem tracks_char (c : Char) : Tracks ops text size true (char c) (Rule.char c) := by
  intro place cs here short
  by_cases first : cs.head? = some c
  · obtain ⟨rest, rfl⟩ := List.head?_eq_some_iff.mp first
    have read : Rule.char c (c :: rest) = .ok (some ((), rest)) := Rule.gives_char c
    rw [char, bind_of_some (nextIs_apply_cons here), read]
    exact .found (from?_cons here) (List.suffix_cons c rest) fun _ => Nat.lt_succ_self _
  · have missed : Rule.char c cs = .ok none := Rule.misses_char first
    rw [char, bind_of_some (nextIs_apply_other here first), missed]
    exact .missed here

theorem tracks_takeWhile (p : Char → Bool) :
    Tracks ops text size false (takeWhile p) (Rule.takeWhile p) := by
  intro place cs here short
  rw [takeWhile_apply p here]
  exact .found (from?_dropWhile p here) (List.dropWhile_suffix p) nofun

theorem blanks_apply (here : (ofChars text).from? place = some cs) :
    blanks (ofChars text) place = .ok (some (!(cs.takeWhile Text.isBlank).isEmpty),
      place + bytesOf (cs.takeWhile Text.isBlank)) :=
  bind_of_some (takeWhile_apply Text.isBlank here)

theorem tracks_blanks : Tracks ops text size false blanks Rule.blanks := by
  intro place cs here short
  rw [blanks_apply here]
  have told : decide ((Text.skipBlank cs).length < cs.length) =
      !(cs.takeWhile Text.isBlank).isEmpty := by
    have parts := congrArg List.length (List.takeWhile_append_dropWhile (p := Text.isBlank) (l := cs))
    rw [List.length_append] at parts
    rw [Text.skipBlank, Bool.eq_iff_iff, decide_eq_true_eq, Bool.not_eq_true',
      List.isEmpty_eq_false_iff, ← List.length_pos_iff]
    omega
  rw [Rule.blanks, told]
  exact .found (from?_dropWhile _ here) (List.dropWhile_suffix _) nofun

/-- One turn of a loop next to the rules for its states: either the rule goes on with the next state
behind something that was read, or it ends as the turn does. -/
inductive Turn {σ : Type} (ops : Operators) (text cs : List Char) (rules : σ → Rule α) :
    Except Stop (Option (σ ⊕ α) × Nat) → Except Fault (Option (α × List Char)) → Prop where
  | again {s : σ} {next : Nat} {rest : List Char} (there : (ofChars text).from? next = some rest)
      (behind : rest <:+ cs) (shorter : rest.length < cs.length) :
      Turn ops text cs rules (.ok (some (.inl s), next)) (rules s rest)
  | done {a : α} {next : Nat} {rest : List Char} (there : (ofChars text).from? next = some rest)
      (behind : rest <:+ cs) :
      Turn ops text cs rules (.ok (some (.inr a), next)) (.ok (some (a, rest)))
  | missed {next : Nat} {rest : List Char} (there : (ofChars text).from? next = some rest) :
      Turn ops text cs rules (.ok (none, next)) (.ok none)
  | unexpected {offset : Nat} {rest : List Char} (there : (ofChars text).from? offset = some rest) :
      Turn ops text cs rules
        (.error (.failed (.unexpected (String.ofList (rest.take 24)) offset)))
        (.error (.unexpected rest))
  | refused {refusal : Refusal} (own : ops.Refuses refusal) :
      Turn ops text cs rules (.error (.failed (.ofRefusal refusal))) (.error (.refused refusal))

/-- A loop comes to its end, since each turn but the last one reads something. -/
theorem tracks_loop {σ : Type} {step : σ → Reader (σ ⊕ α)} {rules : σ → Rule α}
    (turn : ∀ s place cs, (ofChars text).from? place = some cs → cs.length < size →
      Turn ops text cs rules (step s (ofChars text) place) (rules s cs)) (s : σ) :
    Tracks ops text size false (loop step s) (rules s) := by
  intro place cs
  induction left : cs.length using Nat.strongRecOn generalizing s place cs with
  | ind count ih =>
    subst left
    intro here short
    have one := turn s place cs here short
    rw [loop]
    generalize step s (ofChars text) place = outcome at one
    generalize rules s cs = result at one
    cases one with
    | again there behind shorter =>
      have further := place_lt_of_suffix here there behind shorter
      dsimp only
      rw [if_pos ⟨further, le_size there⟩]
      exact (ih _ shorter _ _ _ rfl there (by omega)).behind behind
    | done there behind => exact .found there behind nofun
    | missed there => exact .missed there
    | unexpected there => exact .unexpected there
    | refused own => exact .refused own

theorem turn_many (tracks : Tracks ops text size true reader rule) (as : List α)
    (here : (ofChars text).from? place = some cs) (short : cs.length < size) :
    Turn ops text cs (Rule.manyAfter rule) (manyStep reader as (ofChars text) place)
      (Rule.manyAfter rule as cs) := by
  have follows := tracks.attempt place cs here short
  have back := restores_attempt reader (ofChars text) place
  rw [manyStep, bind_apply, Reader.optional, observe]
  generalize Reader.attempt reader (ofChars text) place = outcome at follows back
  generalize result : rule cs = given at follows
  cases follows with
  | found there behind shorter =>
    rw [Rule.manyAfter_of_gives result (shorter rfl)]
    exact .again there behind (shorter rfl)
  | missed there =>
    cases back _ rfl
    rw [Rule.manyAfter_of_misses result]
    exact .done here (List.suffix_refl cs)
  | unexpected there =>
    rw [Rule.manyAfter_of_error result]
    exact .unexpected there
  | refused own =>
    rw [Rule.manyAfter_of_error result]
    exact .refused own

theorem Tracks.many (tracks : Tracks ops text size true reader rule) :
    Tracks ops text size false (Reader.many reader) (Rule.many rule) := by
  rw [← Rule.manyAfter_nil]
  exact tracks_loop (fun as place cs => turn_many tracks as) []

end

end Reader
end Grammar
end SqlFragment
