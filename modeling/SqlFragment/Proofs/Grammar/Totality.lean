import SqlFragment.Proofs.Grammar.Tracking.Expression

/-
Reading a text comes to an end, whatever the text is, and every byte that it gets to is one between
two characters. Readers of expressions and terms refer to each other, but only behind something that
was read; so the bound on the depth is never met, and each turn of a loop but the last one moves on.
All that operators have to have is a spelling. Those that are not built in may fail for reasons of
their own, which are then passed on as they are.
-/
namespace SqlFragment

/-- Operators that are built in refuse operands for their number only. -/
theorem Operators.Refuses.custom {ops : Operators} {fragment : String} {offset : Nat}
    (refuses : ops.Refuses (.unreadable fragment offset)) :
    ∃ build operands, ops.Has (.custom build) ∧
      build operands = .error (.unreadable fragment offset) := by
  obtain ⟨c, operands, own, built⟩ := refuses
  revert own built
  fun_cases Constructor.build c operands with
  | case11 build operands => exact fun own built => ⟨build, operands, own, built⟩
  | _ => rintro _ ⟨⟩

namespace Grammar
open Source

namespace Reader

/-- The parts of the grammar, with what nests in them. The flag is set for those that move on
whenever they match. -/
inductive Part (g : Grammar) (inner : Readers) : Bool → (α : Type) → Reader α → Prop where
  | blanks : Part g inner false Bool blanks
  | token {t : String} (spelled : t ≠ "") (blankAfter : Bool) :
      Part g inner true Unit (token t blankAfter)
  | comesNext (word : String) : Part g inner false Bool (comesNext word)
  | name : Part g inner true String name
  | path : Part g inner true Expr path
  | parameter : Part g inner true Expr parameter
  | number : Part g inner true Expr number
  | text : Part g inner true Expr Reader.text
  | bytes : Part g inner true Expr bytes
  | timestamp : Part g inner true Expr (timestamp g.now)
  | constant : Part g inner true Expr constant
  | listItem : Part g inner true Expr (listItem inner.expression)
  | expressions : Part g inner false (List Expr) (expressions inner.expression)
  | function : Part g inner true Expr (function inner.expression)
  | group : Part g inner true Expr (group inner.expression)
  | subject : Part g inner false (Option Expr) (subject inner.expression)
  | caseArm : Part g inner true (Expr × Expr) (caseArm inner.expression)
  | elseBranch : Part g inner false Expr (elseBranch inner.expression)
  | endMark : Part g inner true Unit endMark
  | caseOf : Part g inner true Expr (caseOf inner.expression)
  | primary : Part g inner true Expr (primary g inner.expression)
  | applied : Part g inner true Expr (applied g inner.term)
  | operatorAfter : Part g inner true Constructor (operatorAfter g)
  | operatorsAfter (e : Expr) : Part g inner false Expr (operatorsAfter g e)
  | operatorBetween : Part g inner true Constructor (operatorBetween g)
  | operatorWithRight :
      Part g inner true (Constructor × Expr) (operatorWithRight g inner.expression)
  | term : Part g inner true Expr inner.term
  | expression : Part g inner true Expr inner.expression

theorem Part.tracks {g : Grammar} (spelled : g.operators.Spelled) {reads : Bool} {α : Type}
    {reader : Reader α} {depth : Nat} (part : Part g (g.readers depth) reads α reader)
    (text : List Char) : ∃ rule, Tracks g.operators text depth reads reader rule := by
  obtain ⟨expression, term⟩ :=
    @tracks_readers g text spelled depth depth depth (Nat.le_refl _) (Nat.le_refl _)
  have inner := expression.smaller (Nat.sub_le depth 1)
  have nested := term.smaller (Nat.sub_le depth 1)
  have back := restores_readers g depth
  cases part with
  | blanks => exact ⟨_, tracks_blanks⟩
  | token spelled blankAfter => exact ⟨_, tracks_token spelled blankAfter⟩
  | comesNext word => exact ⟨_, tracks_comesNext word⟩
  | name => exact ⟨_, tracks_name⟩
  | path => exact ⟨_, tracks_path⟩
  | parameter => exact ⟨_, tracks_parameter⟩
  | number => exact ⟨_, tracks_number⟩
  | text => exact ⟨_, tracks_text⟩
  | bytes => exact ⟨_, tracks_bytes⟩
  | timestamp => exact ⟨_, tracks_timestamp g.now⟩
  | constant => exact ⟨_, tracks_constant⟩
  | listItem => exact ⟨_, tracks_listItem expression⟩
  | expressions => exact ⟨_, tracks_expressions expression⟩
  | function => exact ⟨_, tracks_function inner⟩
  | group => exact ⟨_, tracks_group inner⟩
  | subject => exact ⟨_, tracks_subject expression⟩
  | caseArm => exact ⟨_, tracks_caseArm inner back⟩
  | elseBranch => exact ⟨_, tracks_elseBranch expression⟩
  | endMark => exact ⟨_, tracks_endMark⟩
  | caseOf => exact ⟨_, tracks_caseOf inner back⟩
  | primary => exact ⟨_, tracks_primary g inner back⟩
  | applied => exact ⟨_, tracks_applied spelled nested⟩
  | operatorAfter => exact ⟨_, tracks_operatorAfter spelled⟩
  | operatorsAfter e => exact ⟨_, tracks_operatorsAfter spelled e⟩
  | operatorBetween => exact ⟨_, tracks_operatorBetween spelled⟩
  | operatorWithRight => exact ⟨_, tracks_operatorWithRight spelled expression⟩
  | term => exact ⟨_, term⟩
  | expression => exact ⟨_, expression⟩

section
variable {α : Type} {ops : Operators} {text : String} {cs : List Char} {offset : Nat} {reads : Bool}

/-- Of two readers in step with one rule, the second does what the first does. -/
theorem Follows.unique {outcome outcome' : Except Stop (Option α × Nat)}
    {result : Except Fault (Option (α × List Char))} {text : List Char}
    (first : Follows ops text cs reads outcome result)
    (second : Follows ops text cs reads outcome' result)
    (back : ∀ next, outcome = .ok (none, next) → next = offset)
    (back' : ∀ next, outcome' = .ok (none, next) → next = offset) : outcome = outcome' := by
  cases first with
  | found there behind shorter =>
    cases second with
    | found there' _ _ => rw [place_unique there there']
  | missed there =>
    cases second with
    | missed there' => rw [back _ rfl, back' _ rfl]
  | unexpected there =>
    cases second with
    | unexpected there' => rw [place_unique there there']
  | refused own =>
    cases second with
    | refused _ => rfl

end

end Reader

open Reader

end Grammar
end SqlFragment
