import Mathlib.Data.List.DropRight
import SqlFragment.Proofs.Grammar.Expression
import SqlFragment.Proofs.Grammar.Tracking.Literal

/-
Readers of expressions in step with their rules, as far as every operator has a spelling. What nests
begins behind its host, so by induction on what is left of the text the readers of any depth beyond
that are in step with the rules of any depth beyond that.
-/
namespace SqlFragment

/-- Every operator is written with at least one character. -/
def Operators.Spelled (ops : Operators) : Prop :=
  (∀ entry ∈ ops.unary, entry.1 ≠ "") ∧ ∀ entry ∈ ops.binary, entry.1 ≠ ""

instance (ops : Operators) : Decidable ops.Spelled :=
  inferInstanceAs
    (Decidable ((∀ entry ∈ ops.unary, entry.1 ≠ "") ∧ ∀ entry ∈ ops.binary, entry.1 ≠ ""))

namespace Grammar
open Source

theorem listItem_skipBlank (expression : Rule Expr) (cs : List Char) :
    listItem expression (Text.skipBlank cs) = listItem expression cs := by
  have again : Text.skipBlank (Text.skipBlank cs) = Text.skipBlank cs :=
    List.dropWhile_idempotent _ _
  rw [listItem, Rule.bind_apply, Rule.bind_apply, Rule.blanks, Rule.blanks, again]

/-- The rest of a list behind the items that are there already. -/
def itemsAfter (expression : Rule Expr) (items : List Expr) : Rule (List Expr) := do
  let all ← Rule.manyAfter (nextItem expression) items
  Rule.char ')'
  return all

def itemsFrom (expression : Rule Expr) (items : List Expr) : Rule (List Expr) := do
  let e ← listItem expression
  itemsAfter expression (items ++ [e])

section
variable {expression : Rule Expr} {items : List Expr} {cs : List Char}

theorem nextItem_comma (expression : Rule Expr) (cs : List Char) :
    nextItem expression (',' :: cs) = listItem expression cs :=
  rfl

theorem itemsAfter_of_misses (misses : (nextItem expression).Misses cs) :
    itemsAfter expression items cs = (Rule.char ')' *> pure items) cs := by
  rw [itemsAfter, Rule.bind_apply, Rule.manyAfter_of_misses misses]
  rfl

theorem itemsAfter_of_comma (shorter : ∀ e mid, (listItem expression).Gives cs e mid →
      mid.length ≤ cs.length) :
    itemsAfter expression items (',' :: cs) = itemsFrom expression items cs := by
  rw [itemsFrom, Rule.bind_apply]
  cases read : listItem expression cs with
  | error fault =>
    have failed : nextItem expression (',' :: cs) = .error fault := by rw [nextItem_comma, read]
    rw [itemsAfter, Rule.bind_apply, Rule.manyAfter_of_error failed]
  | ok result =>
    cases result with
    | none =>
      have misses : (nextItem expression).Misses (',' :: cs) := by
        rw [Rule.Misses, nextItem_comma, read]
      rw [itemsAfter_of_misses misses]
      rfl
    | some result =>
      obtain ⟨e, mid⟩ := result
      have gives : nextItem expression (',' :: cs) = .ok (some (e, mid)) := by
        rw [nextItem_comma, read]
      have less : mid.length < (',' :: cs).length := Nat.lt_succ_of_le (shorter e mid read)
      dsimp only
      rw [itemsAfter, itemsAfter, Rule.bind_apply, Rule.bind_apply, Rule.manyAfter_of_gives gives less]

theorem expressions_eq (expression : Rule Expr) :
    expressions expression = (emptyList <|> itemsFrom expression []) := by
  have first (e : Expr) : (do
      let rest ← Rule.many (nextItem expression)
      Rule.char ')'
      return e :: rest : Rule (List Expr)) = itemsAfter expression [e] := by
    funext cs
    rw [itemsAfter, Rule.bind_apply, Rule.bind_apply, Rule.manyAfter]
    cases Rule.many (nextItem expression) cs with
    | error fault => rfl
    | ok result => cases result <;> rfl
  rw [expressions, itemsFrom, funext first]
  rfl

end

/-- A rule without faults, with results of one kind only. -/
def Rule.Only {α : Type} (rule : Rule α) (good : α → Prop) : Prop :=
  ∀ cs, rule.Misses cs ∨ ∃ a rest, good a ∧ rule.Gives cs a rest

namespace Rule.Only
variable {α : Type} {rule : Rule α} {good : α → Prop} {a : α} {cs rest : List Char}

theorem good_of_gives (only : rule.Only good) (gives : rule.Gives cs a rest) : good a := by
  obtain misses | ⟨b, last, held, found⟩ := only cs
  · exact absurd misses gives.not_misses
  · obtain ⟨rfl, -⟩ := found.unique gives
    exact held

theorem ne_error (only : rule.Only good) (fault : Fault) : rule cs ≠ .error fault := by
  intro failed
  obtain misses | ⟨b, last, -, found⟩ := only cs
  · cases misses.symm.trans failed
  · cases found.symm.trans failed

theorem firstOf {rules : List (Rule α)} (each : ∀ rule ∈ rules, rule.Only good) :
    (Rule.firstOf rules).Only good := by
  intro cs
  induction rules with
  | nil => exact .inl Rule.misses_failure
  | cons rule rules ih =>
    obtain ⟨first, later⟩ := List.forall_mem_cons.mp each
    obtain misses | ⟨a, rest, held, gives⟩ := first cs
    · obtain others | ⟨a, rest, held, gives⟩ := ih later
      · exact .inl (misses.orElse_misses others)
      · exact .inr ⟨a, rest, held, misses.orElse gives⟩
    · exact .inr ⟨a, rest, held, gives.orElse⟩

theorem blanks {next : Bool → Rule α} (each : ∀ spaced, (next spaced).Only good) :
    (Rule.blanks >>= next).Only good := by
  intro cs
  obtain misses | ⟨a, rest, held, gives⟩ := each _ (Text.skipBlank cs)
  · exact .inl (Rule.gives_blanks.bind_misses misses)
  · exact .inr ⟨a, rest, held, Rule.gives_blanks.bind gives⟩

theorem many_gives (only : rule.Only good) (cs : List Char) :
    ∃ as rest, (Rule.many rule).Gives cs as rest := by
  induction left : cs.length using Nat.strongRecOn generalizing cs with
  | ind count ih =>
    obtain misses | ⟨a, mid, -, gives⟩ := only cs
    · exact ⟨[], cs, misses.many⟩
    · by_cases shorter : mid.length < cs.length
      · obtain ⟨as, rest, later⟩ := ih mid.length (by omega) mid rfl
        exact ⟨a :: as, rest, gives.many shorter later⟩
      · refine ⟨[a], mid, ?_⟩
        rw [Rule.Gives, Rule.many, gives]
        simp [shorter]

end Rule.Only

section
variable {g : Grammar} {cs mid : List Char} {c : Constructor} {e : Expr}

theorem only_operator {good : Constructor → Prop} (held : good c) (stands : Bool) (t : String)
    (blankAfter : Bool) : (operator stands t blankAfter c).Only good := by
  intro cs
  cases stands with
  | false => exact .inl rfl
  | true =>
    obtain misses | ⟨rest, gives⟩ := token_misses_or_gives t blankAfter cs
    · exact .inl misses.bind
    · exact .inr ⟨c, rest, held, gives.bind Rule.gives_pure⟩

theorem only_operatorAfter (g : Grammar) :
    g.operatorAfter.Only (· ∈ g.operators.unary.map (·.2.constructor)) := by
  apply Rule.Only.blanks
  intro spaced
  apply Rule.Only.firstOf
  intro rule mem
  obtain ⟨⟨t, entry⟩, own, rfl⟩ := List.mem_map.mp mem
  have named := List.mem_map_of_mem (f := fun row => row.2.constructor) own
  exact only_operator named _ t entry.boundary.right

theorem only_operatorBetween (g : Grammar) :
    g.operatorBetween.Only (· ∈ g.operators.binary.map (·.2.constructor)) := by
  apply Rule.Only.blanks
  intro spaced
  apply Rule.Only.firstOf
  intro rule mem
  obtain ⟨⟨t, entry⟩, own, rfl⟩ := List.mem_map.mp mem
  have named := List.mem_map_of_mem (f := fun row => row.2.constructor) own
  exact only_operator named _ t entry.boundary.right

theorem operatorsAfter_of_misses (misses : g.operatorAfter.Misses cs) :
    g.operatorsAfter e cs = .ok (some (e, cs)) := by
  rw [operatorsAfter, misses.many.bind_eq]
  rfl

theorem operatorsAfter_of_gives (gives : g.operatorAfter.Gives cs c mid)
    (shorter : mid.length < cs.length) :
    g.operatorsAfter e cs = (Rule.build c [e] >>= g.operatorsAfter) mid := by
  obtain ⟨more, rest, later⟩ := (only_operatorAfter g).many_gives mid
  rw [operatorsAfter, (gives.many shorter later).bind_eq, List.foldlM_cons, Rule.bind_apply,
    Rule.bind_apply, Rule.build, Rule.build]
  cases Constructor.build c [e] with
  | error refusal => rfl
  | ok built =>
    dsimp only
    rw [operatorsAfter, later.bind_eq]

end

namespace Reader
variable {ops : Operators} {text cs rest : List Char} {size place : Nat}

section
variable {expression : Reader Expr} {rule : Rule Expr}

theorem Tracks.suffix {α : Type} {reads : Bool} {reader : Reader α} {rule : Rule α} {a : α}
    (tracks : Tracks ops text size reads reader rule) (here : (ofChars text).from? place = some cs)
    (short : cs.length < size) (gives : rule.Gives cs a rest) : rest <:+ cs := by
  have follows := tracks place cs here short
  rw [gives] at follows
  generalize reader (ofChars text) place = outcome at follows
  cases follows with
  | found there behind shorter => exact behind

theorem tracks_listItem (inner : Tracks ops text size true expression rule) :
    Tracks ops text size true (listItem expression) (Grammar.listItem rule) := by
  apply tracks_blanks.bind
  intro _
  apply inner.bind_reads
  intro e
  apply tracks_blanks.bind
  intro _
  exact tracks_pure e

theorem turn_list (inner : Tracks ops text size true expression rule) (items : List Expr)
    (here : (ofChars text).from? place = some cs) (short : cs.length < size) :
    Turn ops text cs (itemsFrom rule) (listStep expression items (ofChars text) place)
      (itemsFrom rule items cs) := by
  have follows := tracks_listItem inner place cs here short
  rw [listStep, bind_apply, itemsFrom, Rule.bind_apply]
  generalize listItem expression (ofChars text) place = outcome at follows
  generalize Grammar.listItem rule cs = given at follows
  cases follows with
  | @found e mid rest there behind shorter =>
    have less := shorter rfl
    dsimp only
    by_cases closed : rest.head? = some ')'
    · obtain ⟨tail, rfl⟩ := List.head?_eq_some_iff.mp closed
      have misses : (nextItem rule).Misses (')' :: tail) := Rule.Misses.seqRight rfl
      rw [bind_of_some (nextIs_apply_cons there), if_pos rfl, itemsAfter_of_misses misses]
      exact .done (from?_cons there) ((List.suffix_cons _ tail).trans behind)
    · rw [bind_of_some (nextIs_apply_other there closed), if_neg Bool.false_ne_true]
      by_cases comma : rest.head? = some ','
      · obtain ⟨tail, rfl⟩ := List.head?_eq_some_iff.mp comma
        have after := from?_cons there
        have tailSuffix := List.suffix_cons ',' tail
        have count : tail.length < (',' :: tail).length := Nat.lt_succ_self _
        have moved : char ',' (ofChars text) mid = .ok (some (), mid + ','.utf8Size) := by
          rw [char, bind_of_some (nextIs_apply_cons there)]
          rfl
        have inside : ∀ d last, (Grammar.listItem rule).Gives tail d last → last.length ≤ tail.length :=
          fun d last gives => ((tracks_listItem inner).suffix after (by omega) gives).length_le
        rw [bind_of_some moved, itemsAfter_of_comma inside]
        exact .again after (tailSuffix.trans behind) (by omega)
      · have missed : char ',' (ofChars text) mid = .ok (none, mid) := by
          rw [char, bind_of_some (nextIs_apply_other there comma)]
          rfl
        have misses : (nextItem rule).Misses rest := (Rule.misses_char comma).seqRight
        have none : (Rule.char ')' *> pure (items ++ [e])).Misses rest :=
          (Rule.misses_char closed).seqRight
        rw [bind_apply, missed, itemsAfter_of_misses misses, none]
        exact .missed there
  | missed there => exact .missed there
  | unexpected there => exact .unexpected there
  | refused own => exact .refused own

theorem tracks_expressions (inner : Tracks ops text size true expression rule) :
    Tracks ops text size false (expressions expression) (Grammar.expressions rule) := by
  intro place cs here short
  have atItem : (ofChars text).from? (place + bytesOf (cs.takeWhile Text.isBlank)) =
      some (Text.skipBlank cs) := from?_dropWhile Text.isBlank here
  have behind : Text.skipBlank cs <:+ cs := List.dropWhile_suffix _
  rw [expressions, bind_of_some (blanks_apply here), expressions_eq]
  by_cases closed : (Text.skipBlank cs).head? = some ')'
  · obtain ⟨rest, inside⟩ := List.head?_eq_some_iff.mp closed
    rw [inside] at atItem behind
    have read : emptyList.Gives cs [] rest := by
      refine Rule.gives_blanks.bind ?_
      rw [inside]
      exact (Rule.gives_char ')').bind Rule.gives_pure
    rw [bind_of_some (nextIs_apply_cons atItem), if_pos rfl, read.orElse]
    exact .found (from?_cons atItem) ((List.suffix_cons _ rest).trans behind) nofun
  · have missed : emptyList.Misses cs :=
      Rule.gives_blanks.bind_misses (Rule.misses_char closed).bind
    have skipped : itemsFrom rule [] cs = itemsFrom rule [] (Text.skipBlank cs) := by
      rw [itemsFrom, Rule.bind_apply, Rule.bind_apply, listItem_skipBlank]
    rw [bind_of_some (nextIs_apply_other atItem closed), if_neg Bool.false_ne_true,
      missed.orElse_eq, skipped]
    have less := behind.length_le
    exact (tracks_loop (fun items place cs => turn_list inner items) [] _ _ atItem (by omega)).behind
      behind

theorem tracks_function (inner : Tracks ops text (size - 1) true expression rule) :
    Tracks ops text size true (function expression) (Grammar.function rule) := by
  apply tracks_name.bind_reads
  intro f
  apply (tracks_char '(').weaken.bind
  intro _
  apply (tracks_expressions inner).bind
  intro arguments
  exact tracks_pure _

theorem tracks_group (inner : Tracks ops text (size - 1) true expression rule) :
    Tracks ops text size true (group expression) (Grammar.group rule) := by
  apply (tracks_char '(').bind_reads
  intro _
  apply (tracks_expressions inner).bind
  intro items
  rcases items with _ | ⟨e, _ | ⟨d, items⟩⟩
  · exact tracks_pure _
  · exact tracks_pure _
  · exact tracks_pure _

theorem tracks_required {α : Type} {reads : Bool} {reader : Reader α} {rule : Rule α}
    (tracks : Tracks ops text size reads reader rule) (back : Restores reader) :
    Tracks ops text size reads (required reader) (Grammar.required rule) := by
  have same : Grammar.required rule = (rule <|> (Rule.remaining >>= Rule.unexpected)) := rfl
  rw [same]
  exact tracks.orElse back tracks_unexpected

theorem tracks_caseArm (inner : Tracks ops text (size - 1) true expression rule)
    (back : Restores expression) :
    Tracks ops text size true (caseArm expression) (Grammar.caseArm rule) := by
  have part := (tracks_required inner back).weaken
  apply tracks_blanks.bind
  intro _
  apply (tracks_token (by decide) false).bind_reads
  intro _
  apply tracks_blanks.bind
  intro _
  apply part.bind
  intro condition
  apply tracks_blanks.bind
  intro _
  apply (tracks_required (tracks_token (by decide) false) (restores_token "then" false)).weaken.bind
  intro _
  apply tracks_blanks.bind
  intro _
  apply part.bind
  intro result
  exact tracks_pure _

theorem tracks_subject (inner : Tracks ops text size true expression rule) :
    Tracks ops text size false (subject expression) (do
      let whens ← Grammar.comesNext "when"
      if whens then pure none else some <$> rule) := by
  apply (tracks_comesNext "when").bind
  intro whens
  cases whens with
  | false => exact (inner.map some).weaken
  | true => exact tracks_pure none

theorem tracks_elseBranch (inner : Tracks ops text size true expression rule) :
    Tracks ops text size false (elseBranch expression) (Grammar.elseBranch rule) := by
  apply tracks_blanks.bind
  intro _
  apply (tracks_token (by decide) false).weaken.bind
  intro _
  apply tracks_blanks.bind
  intro _
  exact inner.weaken

theorem tracks_endMark : Tracks ops text size true endMark Grammar.endMark :=
  tracks_blanks.bind fun _ => tracks_token (by decide) false

theorem tracks_caseOf (inner : Tracks ops text (size - 1) true expression rule)
    (back : Restores expression) :
    Tracks ops text size true (caseOf expression) (Grammar.caseOf rule) := by
  apply tracks_place
  intro start whole opened
  apply (tracks_token (by decide) false).bind_reads
  intro _
  apply tracks_blanks.bind
  intro _
  rw [← Rule.bind_assoc]
  apply (tracks_subject inner).bind
  intro compared
  apply (tracks_caseArm (inner.smaller (Nat.sub_le _ _)) back).many.bind
  intro arms
  split
  · exact tracks_errorAt opened
  · apply (tracks_elseBranch inner).optional.bind
    intro otherwise
    apply tracks_endMark.optional.bind
    intro _
    exact tracks_pure _

theorem tracks_primary (g : Grammar) (inner : Tracks ops text (size - 1) true expression rule)
    (back : Restores expression) :
    Tracks ops text size true (primary g expression) (g.primary rule) := by
  have pairs := @tracks_firstOf _ ops text size true (Reader Expr × Rule Expr)
    [(caseOf expression, Grammar.caseOf rule), (timestamp g.now, Grammar.timestamp g.now),
      (bytes, Grammar.bytes), (Reader.text, Grammar.text), (constant, Grammar.constant),
      (function expression, Grammar.function rule), (parameter, Grammar.parameter),
      (path, Grammar.path), (group expression, Grammar.group rule)]
    (fun pair => attempt pair.1) Prod.snd
  refine pairs ?_ fun pair _ => restores_attempt pair.1
  simp only [List.forall_mem_cons]
  exact ⟨(tracks_caseOf inner back).attempt, (tracks_timestamp g.now).attempt, tracks_bytes.attempt,
    tracks_text.attempt, tracks_constant.attempt, (tracks_function inner).attempt,
    tracks_parameter.attempt, tracks_path.attempt, (tracks_group inner).attempt, nofun⟩

theorem restores_primary (g : Grammar) (expression : Reader Expr) :
    Restores (primary g expression) := by
  apply restores_firstOf
  intro reader mem
  obtain ⟨part, -, rfl⟩ := List.mem_map.mp mem
  exact restores_attempt part

end

/-! Operators. -/

section
variable {g : Grammar} {term expression : Reader Expr} {term' expression' : Rule Expr}

theorem tracks_applied (spelled : g.operators.Spelled)
    (inner : Tracks g.operators text (size - 1) true term term') :
    Tracks g.operators text size true (applied g term) (g.applied term') := by
  apply tracks_firstOf
  · rintro ⟨t, entry⟩ mem
    apply Tracks.attempt
    dsimp only
    split
    · exact tracks_failure
    · apply (tracks_token (spelled.1 _ mem) entry.boundary.right).bind_reads
      intro _
      apply tracks_blanks.bind
      intro _
      apply inner.weaken.bind
      intro operand
      exact tracks_build [operand] (.inl (List.mem_map_of_mem mem))
  · rintro ⟨t, entry⟩ _
    exact restores_attempt _

theorem tracks_operator {t : String} (spelled : t ≠ "") (stands right : Bool) (c : Constructor) :
    Tracks ops text size true (operator stands t right c) (Grammar.operator stands t right c) := by
  cases stands with
  | false => exact tracks_failure
  | true => exact (tracks_token spelled right).bind_reads fun _ => tracks_pure c

theorem restores_operator (stands : Bool) (t : String) (right : Bool) (c : Constructor) :
    Restores (operator stands t right c) := by
  cases stands with
  | false => exact restores_failure
  | true => exact (restores_token t right).bind fun _ => answers_pure c

theorem tracks_operatorAfter (spelled : g.operators.Spelled) :
    Tracks g.operators text size true (operatorAfter g) g.operatorAfter := by
  apply tracks_blanks.bind
  intro spaced
  apply tracks_firstOf
  · rintro ⟨t, entry⟩ mem
    exact tracks_operator (spelled.1 _ mem) _ _ _
  · rintro ⟨t, entry⟩ _
    exact restores_operator _ _ _ _

theorem tracks_operatorBetween (spelled : g.operators.Spelled) :
    Tracks g.operators text size true (operatorBetween g) g.operatorBetween := by
  apply Tracks.attempt
  apply tracks_blanks.bind
  intro spaced
  apply tracks_firstOf
  · rintro ⟨t, entry⟩ mem
    exact tracks_operator (spelled.2 _ mem) _ _ _
  · rintro ⟨t, entry⟩ _
    exact restores_operator _ _ _ _

theorem tracks_operatorWithRight (spelled : g.operators.Spelled)
    (inner : Tracks g.operators text size true expression expression') :
    Tracks g.operators text size true (operatorWithRight g expression)
      (g.operatorWithRight expression') := by
  apply (tracks_operatorBetween spelled).bind_reads
  intro c
  apply tracks_blanks.bind
  intro _
  apply (inner.smaller (Nat.sub_le size 1)).weaken.bind
  intro right
  exact tracks_pure _

theorem turn_after (spelled : g.operators.Spelled) (e : Expr)
    (here : (ofChars text).from? place = some cs) (short : cs.length < size) :
    Turn g.operators text cs g.operatorsAfter (afterStep g e (ofChars text) place)
      (g.operatorsAfter e cs) := by
  have follows := (tracks_operatorAfter spelled).attempt place cs here short
  have back := restores_attempt (operatorAfter g) (ofChars text) place
  rw [afterStep, bind_apply, Reader.optional, observe]
  generalize Reader.attempt (operatorAfter g) (ofChars text) place = outcome at follows back
  generalize result : g.operatorAfter cs = given at follows
  cases follows with
  | @found c next rest there behind shorter =>
    have own := (only_operatorAfter g).good_of_gives result
    rw [operatorsAfter_of_gives result (shorter rfl), Rule.bind_apply, Rule.build]
    dsimp only
    rw [map_apply, build]
    cases built : c.build [e] with
    | ok applied => exact .again there behind (shorter rfl)
    | error refusal => exact .refused ⟨c, [e], .inl own, built⟩
  | missed there =>
    cases back _ rfl
    rw [operatorsAfter_of_misses result]
    exact .done here (List.suffix_refl cs)
  | unexpected there => exact absurd result ((only_operatorAfter g).ne_error _)
  | refused own => exact absurd result ((only_operatorAfter g).ne_error _)

theorem tracks_operatorsAfter (spelled : g.operators.Spelled) (e : Expr) :
    Tracks g.operators text size false (operatorsAfter g e) (g.operatorsAfter e) :=
  tracks_loop (fun e _ _ => turn_after spelled e) e

theorem answers_operatorsAfter (g : Grammar) (e : Expr) : Answers (operatorsAfter g e) := by
  apply answers_loop
  intro e
  apply (answers_observe _).bind
  intro found
  cases found with
  | none => exact answers_pure _
  | some c => exact (answers_build c [e]).map Sum.inl

theorem tracks_term (spelled : g.operators.Spelled)
    (inner : Tracks g.operators text (size - 1) true expression expression')
    (back : Restores expression) (nested : Tracks g.operators text (size - 1) true term term') :
    Tracks g.operators text size true (Reader.term g expression term) (g.termOf expression' term') := by
  have last : g.termOf expression' term' = (g.withOperatorsAfter Grammar.number <|>
      (g.applied term' <|> g.withOperatorsAfter (g.primary expression'))) := by
    rw [termOf, Rule.firstOf, Rule.firstOf, Rule.firstOf, Rule.firstOf, Rule.orElse_failure]
  rw [last]
  have after {reader : Reader Expr} {rule : Rule Expr}
      (tracks : Tracks g.operators text size true reader rule) :
      Tracks g.operators text size true (reader >>= operatorsAfter g) (g.withOperatorsAfter rule) :=
    tracks.bind_reads fun e => tracks_operatorsAfter spelled e
  apply (after tracks_number.attempt).orElse
  · exact (restores_attempt number).bind (answers_operatorsAfter g)
  · apply (tracks_applied spelled nested).attempt.orElse (restores_attempt _)
    exact after (tracks_primary g inner back)

theorem restores_term (g : Grammar) (expression term : Reader Expr) :
    Restores (Reader.term g expression term) := by
  have after {reader : Reader Expr} (back : Restores reader) :
      Restores (reader >>= operatorsAfter g) := back.bind (answers_operatorsAfter g)
  exact (after (restores_attempt number)).orElse
    ((restores_attempt _).orElse (after (restores_primary g expression)))

theorem tracks_expression (spelled : g.operators.Spelled)
    (left : Tracks g.operators text size true term term')
    (inner : Tracks g.operators text (size - 1) true expression expression') :
    Tracks g.operators text size true (Reader.expression g term expression)
      (g.expressionOf term' expression') := by
  apply left.bind_reads
  intro e
  apply (tracks_operatorWithRight spelled inner).optional.bind_of
  intro place cs found mid after here short gives there behind _
  cases found with
  | none => exact .found there behind nofun
  | some found =>
    obtain ⟨c, right⟩ := found
    obtain ⟨_, ⟨rfl⟩, gives⟩ | ⟨⟨⟩, -⟩ := Rule.gives_optional gives
    obtain ⟨c', _, between, gives⟩ := Rule.gives_bind gives
    obtain ⟨_, _, -, gives⟩ := Rule.gives_bind gives
    obtain ⟨_, _, -, ⟨⟩⟩ := Rule.gives_bind gives
    have own := (only_operatorBetween g).good_of_gives between
    have built : Tracks g.operators text (size - 1) false (build c [e, right])
        (Rule.build c [e, right]) := tracks_build [e, right] (.inr own)
    have less := behind.length_le
    exact (built after mid there (by omega)).behind behind

theorem restores_expression (g : Grammar) {term : Reader Expr} (back : Restores term)
    (expression : Reader Expr) : Restores (Reader.expression g term expression) := by
  apply back.bind
  intro e
  apply (answers_observe _).bind
  intro found
  cases found with
  | none => exact answers_pure e
  | some found => exact answers_build found.1 [e, found.2]

end

end Reader

section
variable {g : Grammar} {text : List Char}
open Reader

theorem restores_readers (g : Grammar) (depth : Nat) : Restores (g.readers depth).expression := by
  cases depth with
  | zero => nofun
  | succ depth => exact restores_expression g (restores_term g _ _) _

/-- At the end of a text nothing nests, and elsewhere what nests begins at a shorter text. -/
theorem tracks_readers (spelled : g.operators.Spelled) {size depth depth' : Nat}
    (deep : size ≤ depth) (deep' : size ≤ depth') :
    Tracks g.operators text size true (g.readers depth).expression (g.level depth').expression ∧
      Tracks g.operators text size true (g.readers depth).term (g.level depth').term := by
  induction size generalizing depth depth' with
  | zero => exact ⟨nofun, nofun⟩
  | succ size ih =>
    obtain ⟨depth, rfl⟩ := Nat.exists_eq_add_of_lt deep
    obtain ⟨depth', rfl⟩ := Nat.exists_eq_add_of_lt deep'
    obtain ⟨inner, nested⟩ := @ih (size + depth) (size + depth') (by omega) (by omega)
    have term : Tracks g.operators text (size + 1) true (g.readers (size + depth + 1)).term
        (g.level (size + depth' + 1)).term :=
      tracks_term spelled inner (restores_readers g _) nested
    exact ⟨tracks_expression spelled term inner, term⟩

/-- An error tells what follows a byte between two characters, or is what an operator refuses with,
who may be unable to read a text of its own. -/
def Located (ops : Operators) (text : String) : EvaluationError → Prop
  | .unexpected fragment offset =>
    (∃ rest, Place text offset rest ∧ fragment = String.ofList (rest.take 24)) ∨
      ops.Refuses (.unreadable fragment offset)
  | .refused refusal => ops.Refuses refusal

theorem located_unexpected {ops : Operators} {text : String} {offset : Nat} {rest : List Char}
    (there : (ofChars text.toList).from? offset = some rest) :
    Located ops text (.unexpected (String.ofList (rest.take 24)) offset) :=
  .inl ⟨rest, place_iff.mpr there, rfl⟩

theorem located_refused {ops : Operators} {text : String} {refusal : Refusal}
    (own : ops.Refuses refusal) : Located ops text (.ofRefusal refusal) := by
  cases refusal with
  | unreadable fragment offset => exact .inr own
  | _ => exact own

theorem unexpectedAt_eq {offset : Nat} {rest : List Char}
    (there : (ofChars text).from? offset = some rest) :
    unexpectedAt text rest = .unexpected (String.ofList (rest.take 24)) offset := by
  have whole := place_add_bytesOf there
  have same : bytesOf text - bytesOf rest = offset := by omega
  rw [unexpectedAt, same]

theorem isDone_apply {place : Nat} {rest : List Char}
    (here : (ofChars text).from? place = some rest) :
    isDone (ofChars text) place = .ok (some rest.isEmpty, place) := by
  have whole := place_add_bytesOf here
  have told : decide ((ofChars text).size ≤ place) = rest.isEmpty := by
    rw [size_ofChars, Bool.eq_iff_iff, decide_eq_true_eq, List.isEmpty_iff]
    constructor
    · intro ends
      by_contra some
      have := bytesOf_pos some
      omega
    · rintro rfl
      rw [bytesOf] at whole
      omega
  rw [isDone, told]

theorem unexpected_apply {α : Type} {place : Nat} {rest : List Char}
    (here : (ofChars text).from? place = some rest) :
    (unexpected : Reader α) (ofChars text) place =
      .error (.failed (.unexpected (String.ofList (rest.take 24)) place)) :=
  bind_of_some (sliceFrom_apply here)

/-- Reading a whole text ends with its expression or with an error, as the rules say. -/
theorem read_cases (spelled : g.operators.Spelled) (text : String) :
    (∃ e place, g.read text.toList = .ok (some e, place) ∧ g.parseChars text.toList = .ok e) ∨
      ∃ error, g.read text.toList = .error (.failed error) ∧
        g.parseChars text.toList = .error error ∧ Located g.operators text error := by
  have here : (ofChars text.toList).from? (0 + bytesOf (text.toList.takeWhile Text.isBlank)) =
      some (Text.skipBlank text.toList) := from?_dropWhile Text.isBlank (from?_zero text.toList)
  have again : Text.skipBlank (Text.skipBlank text.toList) = Text.skipBlank text.toList :=
    List.dropWhile_idempotent _ _
  have less : (Text.skipBlank text.toList).length < text.toList.length + 1 :=
    Nat.lt_succ_of_le (List.dropWhile_suffix _).length_le
  have follows := (tracks_readers spelled (Nat.le_refl _) (Nat.le_refl _)).1 _ _ here less
  have back := restores_readers g (text.toList.length + 1) (ofChars text.toList)
    (0 + bytesOf (text.toList.takeWhile Text.isBlank))
  rw [read, whole, bind_of_some (blanks_apply (from?_zero text.toList)), bind_apply, observe,
    parseChars]
  generalize (g.readers (text.toList.length + 1)).expression (ofChars text.toList) _ = outcome
    at follows back
  generalize (g.level (text.toList.length + 1)).expression (Text.skipBlank text.toList) = given
    at follows
  cases follows with
  | @found e next rest there behind shorter =>
    have last : (ofChars text.toList).from? (next + bytesOf (rest.takeWhile Text.isBlank)) =
        some (Text.skipBlank rest) := from?_dropWhile Text.isBlank there
    dsimp only
    rw [bind_of_some (blanks_apply there), bind_of_some (isDone_apply last)]
    cases (Text.skipBlank rest).isEmpty with
    | true => exact .inl ⟨e, _, rfl, rfl⟩
    | false =>
      exact .inr ⟨_, unexpected_apply last, by rw [← unexpectedAt_eq last]; rfl,
        located_unexpected last⟩
  | missed there =>
    cases back _ rfl
    have last := from?_dropWhile Text.isBlank here
    rw [← Text.skipBlank, again] at last
    dsimp only
    rw [bind_of_some (blanks_apply here), bind_of_some (isDone_apply last)]
    exact .inr ⟨_, unexpected_apply last, by rw [← unexpectedAt_eq last], located_unexpected last⟩
  | unexpected there =>
    exact .inr ⟨_, rfl, by rw [← unexpectedAt_eq there], located_unexpected there⟩
  | refused own => exact .inr ⟨_, rfl, rfl, located_refused own⟩

theorem parse_eq (spelled : g.operators.Spelled) (text : String) :
    g.parse text = g.parseChars text.toList := by
  rw [parse]
  obtain ⟨e, place, read, same⟩ | ⟨error, read, same, -⟩ := read_cases spelled text
  · rw [read, same]
  · rw [read, same]
    rfl

end

end Grammar
end SqlFragment
