import SqlFragment.Proofs.Grouping.Regrouping
import SqlFragment.Proofs.Grouping.Words

/-
What the text of an enclosed expression is read as: the expression itself, with every chain of
operators of one strength grouped from the left.
-/
namespace SqlFragment.Expr
open Grouping

def legibleNode (e : Expr) : Prop := e.elementaryNode = true ∧ e.untypedNode = e

/-- Elementary expressions as they are read: without types, and with no column named like a
number. -/
def Legible (e : Expr) : Prop := e.All legibleNode

section
variable {e l r low high : Expr} {t u : DataType}

theorem Legible.operand {op : UnaryOperator} (legible : (Expr.unary op e t).Legible) :
    t = .undefined ∧ e.Legible := by
  obtain ⟨⟨-, untyped⟩, operand⟩ := (all_unary op e t).mp legible
  simp only [untypedNode, apply, unary.injEq, true_and] at untyped
  exact ⟨untyped.symm, operand⟩

theorem Legible.operands {op : BinaryOperator} (legible : (Expr.binary op l r t).Legible) :
    t = .undefined ∧ l.Legible ∧ r.Legible := by
  obtain ⟨⟨-, untyped⟩, left, right⟩ := (all_binary op l r t).mp legible
  simp only [untypedNode, combine, binary.injEq, true_and] at untyped
  exact ⟨untyped.symm, left, right⟩

theorem Legible.inner (legible : (Expr.parenthesis e).Legible) : e.Legible :=
  ((all_parenthesis e).mp legible).2

theorem Legible.plain {op : BinaryOperator} (legible : (Expr.binary op l r t).Legible)
    (plain : ¬IsRange op r) : op ≠ .between := by
  rintro rfl
  have node := legible.self.1
  cases r with
  | binary inner low high u =>
    have bounds : inner ≠ .and := fun same => plain ⟨low, high, u, rfl, by rw [same]⟩
    cases inner <;> first | exact absurd rfl bounds | exact absurd node Bool.false_ne_true
  | _ => exact absurd node Bool.false_ne_true

theorem Legible.names_literal {v : Value} (legible : (Expr.literal v t).Legible) :
    Names (Expr.literal v t).display (.literal v t) := by
  obtain ⟨node, untyped⟩ := legible.self
  have undefined : t = .undefined := by simpa [untypedNode] using untyped.symm
  cases v with
  | integer n =>
    rw [undefined]
    exact names_number (by simpa [elementaryNode] using node)
  | _ => exact absurd node Bool.false_ne_true

theorem Legible.names_parameter {n : String} (legible : (Expr.parameter n).Legible) :
    Names (Expr.parameter n).display (.parameter n) :=
  Grouping.names_parameter legible.self.1

theorem Legible.names_column {path : Path} (legible : (Expr.column path).Legible) :
    Names (Expr.column path).display (.column path) := by
  obtain ⟨node, column⟩ := legible.self
  simp only [elementaryNode, Bool.and_eq_true, Bool.not_eq_true', List.isEmpty_eq_false_iff] at node
  exact Grouping.names_column node.1 (List.all_eq_true.mp node.2) column

theorem words_of_names (names : Names e.display e) : e.words = [e.display] := names.single

end

/-- Induction on legible expressions that hold all their parentheses, as their parts do. -/
theorem inductionOnLegible {P : (e : Expr) → e.Tight → e.Legible → Prop}
    (literal : ∀ v t tight legible, P (.literal v t) tight legible)
    (parameter : ∀ n tight legible, P (.parameter n) tight legible)
    (column : ∀ p tight legible, P (.column p) tight legible)
    (function : ∀ n args (tight : (Expr.function n args).Tight)
      (legible : (Expr.function n args).Legible),
      (∀ a (mem : a ∈ args), P a (tight.argument mem) (legible.argument mem)) →
        P (.function n args) tight legible)
    (parenthesis : ∀ e (tight : (Expr.parenthesis e).Tight) (legible : (Expr.parenthesis e).Legible),
      P e tight.inner legible.inner → P (.parenthesis e) tight legible)
    (unary : ∀ op e (tight : (Expr.unary op e .undefined).Tight)
      (legible : (Expr.unary op e .undefined).Legible),
      P e tight.operand.2 legible.operand.2 → P (.unary op e .undefined) tight legible)
    (range : ∀ e low high
      (tight : (Expr.binary .between e (.binary .and low high .undefined) .undefined).Tight)
      (legible : (Expr.binary .between e (.binary .and low high .undefined) .undefined).Legible),
      P e tight.bounds.1.2 legible.operands.2.1 →
        P low tight.bounds.2.1.2 legible.operands.2.2.operands.2.1 →
          P high tight.bounds.2.2.2 legible.operands.2.2.operands.2.2 →
            P (.binary .between e (.binary .and low high .undefined) .undefined) tight legible)
    (binary : ∀ op l r, op ≠ .between → ∀ (plain : ¬IsRange op r)
      (tight : (Expr.binary op l r .undefined).Tight)
      (legible : (Expr.binary op l r .undefined).Legible),
      P l (tight.operands plain).1.2 legible.operands.2.1 →
        P r (tight.operands plain).2.2 legible.operands.2.2 →
          P (.binary op l r .undefined) tight legible)
    (case : ∀ s arms o (tight : (Expr.case s arms o).Tight) (legible : (Expr.case s arms o).Legible),
      (∀ e (mem : e ∈ s), P e (tight.subject mem) (legible.subject mem)) →
        (∀ arm (mem : arm ∈ arms), P arm.1 (tight.arm mem).1 (legible.arm mem).1 ∧
          P arm.2 (tight.arm mem).2 (legible.arm mem).2) →
          (∀ e (mem : e ∈ o), P e (tight.branch mem) (legible.branch mem)) →
            P (.case s arms o) tight legible)
    (e : Expr) (tight : e.Tight) (legible : e.Legible) : P e tight legible := by
  induction e using inductionOnParts with
  | literal v t => exact literal v t tight legible
  | parameter n => exact parameter n tight legible
  | column p => exact column p tight legible
  | table p => exact absurd legible.self.1 Bool.false_ne_true
  | raw s t => exact absurd legible.self.1 Bool.false_ne_true
  | list items s => exact absurd legible.self.1 Bool.false_ne_true
  | function n args ih => exact function n args tight legible fun a mem => ih a mem _ _
  | parenthesis e ih => exact parenthesis e tight legible (ih _ _)
  | unary op e t ih =>
    obtain ⟨rfl, -⟩ := legible.operand
    exact unary op e tight legible (ih _ _)
  | range e low high t u he hlow hhigh =>
    obtain ⟨rfl, -, bounds⟩ := legible.operands
    obtain ⟨rfl, -⟩ := bounds.operands
    exact range e low high tight legible (he _ _) (hlow _ _) (hhigh _ _)
  | binary op l r t plain hl hr =>
    have other := legible.plain plain
    obtain ⟨rfl, -⟩ := legible.operands
    exact binary op l r other plain tight legible (hl _ _) (hr _ _)
  | case s arms o hs harms ho =>
    exact case s arms o tight legible (fun e mem => hs e mem _ _)
      (fun arm mem => ⟨(harms arm mem).1 _ _, (harms arm mem).2 _ _⟩) fun e mem => ho e mem _ _

theorem head?_append_of_some {ts : List String} {w : String} (first : ts.head? = some w)
    (rest : List String) : (ts ++ rest).head? = some w := by
  simp [List.head?_append, first]

/-- How the text of an operand begins: with no end of an expression, and with `NOT` only where this
is a negation. -/
def Opening (e : Expr) : Prop :=
  ∃ w, e.words.head? = some w ∧ w ∉ closers ∧ w ≠ "NULL" ∧ (w = "NOT" → e.level ≤ 4)

theorem Opening.opens {e : Expr} (opening : Opening e) : Opens e.words := by
  obtain ⟨w, first, free, -⟩ := opening
  exact ⟨w, first, free⟩

theorem opening_of_word {e : Expr} {w : String} (first : e.words.head? = some w)
    (operand : w ∉ specials) : Opening e := by
  have other : ∀ s ∈ specials, w ≠ s := fun s hs same => operand (same ▸ hs)
  refine ⟨w, first, fun closes => operand (closers_special w closes), other "NULL" (by decide), ?_⟩
  intro negation
  exact absurd negation (other "NOT" (by decide))

theorem opening_of_names {e : Expr} (names : Names e.display e) : Opening e :=
  opening_of_word (by rw [words_of_names names]; rfl) names.operand

theorem Opening.first {e operand : Expr} {rest : List String} (opening : Opening operand)
    (text : e.words = operand.words ++ rest) (strong : e.level ≤ operand.level) : Opening e := by
  obtain ⟨w, first, free, other, negation⟩ := opening
  refine ⟨w, ?_, free, other, fun same => Nat.le_trans strong (negation same)⟩
  rw [text, head?_append_of_some first]

theorem level_of_unary_bare {op : UnaryOperator} {e : Expr}
    (bare : op.groups e e.display = false) :
    (op.position = .before → operandStrength op ≤ e.level) ∧
      (op.position = .after → op.precedence < e.level) := by
  rw [level]
  cases strength : e.precedence? with
  | none =>
    rw [Option.getD_none]
    cases op <;> decide
  | some n =>
    simp only [UnaryOperator.groups, strength, Bool.or_eq_false_iff, decide_eq_false_iff_not,
      Nat.not_lt] at bare
    rw [Option.getD_some]
    obtain ⟨⟨⟨weak, tie⟩, other⟩, -⟩ := bare
    constructor
    · intro place
      cases op <;> first | exact weak | exact absurd other (by decide)
    · intro place
      have different : n ≠ op.precedence := by
        rw [place] at tie
        simpa using tie
      omega

theorem opening {e : Expr} (tight : e.Tight) (legible : e.Legible) : Opening e := by
  induction e, tight, legible using inductionOnLegible with
  | literal v t _ legible => exact opening_of_names legible.names_literal
  | parameter n _ legible => exact opening_of_names legible.names_parameter
  | column p _ legible => exact opening_of_names legible.names_column
  | function n args _ legible =>
    have plain : isPlainName n = true := legible.self.1
    refine opening_of_word ?_ (not_special_of_plain plain)
    rw [words_function (tokens_plain plain)]
    rfl
  | parenthesis e =>
    refine ⟨"(", by rw [words_parenthesis]; rfl, by decide, by decide, ?_⟩
    intro same
    exact absurd same (by decide)
  | case s arms o =>
    refine ⟨"CASE", by rw [words_case]; rfl, by decide, by decide, ?_⟩
    intro same
    exact absurd same (by decide)
  | unary op e tight _ ih =>
    cases place : op.position with
    | between => cases op <;> cases place
    | before =>
      refine ⟨op.spelling, by rw [tight.words_before place]; rfl, ?_⟩
      rw [level_unary]
      cases op <;> decide
    | after =>
      have strong := (level_of_unary_bare tight.operand.1).2 place
      exact ih.first (tight.words_after place) (Nat.le_of_lt strong)
  | range e low high tight _ he =>
    exact he.first tight.words_range (precedence_le_level (level_of_bare tight.bounds.1.1))
  | binary op l r _ plain tight _ hl =>
    exact hl.first (tight.words_binary plain)
      (precedence_le_level (level_of_bare (tight.operands plain).1.1))

end SqlFragment.Expr

namespace SqlFragment.Grouping
open SqlFragment.Expr

theorem precedence_linkAfterIs (ts : List String) : (linkAfterIs ts).1.precedence = 5 := by
  unfold linkAfterIs
  split <;> rfl

theorem following_words (op : BinaryOperator) (ts : List String) :
    following (op.words ++ ts) = op.precedence := by
  cases op with
  | is => exact precedence_linkAfterIs ts
  | isNot => exact precedence_linkAfterIs ("NOT" :: ts)
  | _ => rfl

theorem head?_words_ne (op : BinaryOperator) (ts : List String) :
    (op.words ++ ts).head? ≠ some "(" := by
  cases op <;> simp [BinaryOperator.words, BinaryOperator.spelling]

theorem link?_words {op : BinaryOperator} {ts : List String}
    (free : op.isComparison = true → ts.head? ≠ some "NOT" ∧ ts.head? ≠ some "NULL") :
    link? (op.words ++ ts) = some (.binary op, ts) := by
  cases op with
  | is =>
    obtain ⟨negation, null⟩ := free rfl
    have link : linkAfterIs ts = (.binary .is, ts) := by
      unfold linkAfterIs
      split <;> first | rfl | exact absurd rfl negation | exact absurd rfl null
    exact congrArg some link
  | isNot =>
    obtain ⟨-, null⟩ := free rfl
    have link : linkAfterIs ("NOT" :: ts) = (.binary .isNot, ts) := by
      cases ts with
      | nil => rfl
      | cons t ts =>
        have other : t ≠ "NULL" := fun same => null (by rw [same]; rfl)
        simp [linkAfterIs, other]
    exact congrArg some link
  | _ => rfl

theorem binary_strength (op : BinaryOperator) : op.precedence ≠ 4 ∧ op.precedence < 11 := by
  cases op <;> decide

theorem link_strength {ts rest : List String} {link : Link} (found : link? ts = some (link, rest)) :
    link.precedence ≠ 4 ∧ link.precedence < 11 := by
  unfold link? at found
  split at found
  · rename_i ts
    have strength := precedence_linkAfterIs ts
    rw [Option.some.inj found] at strength
    simp only at strength
    omega
  · cases found
    exact binary_strength .notLike
  · cases found
    exact binary_strength .notIn
  · obtain ⟨op, -, same⟩ := Option.map_eq_some_iff.mp found
    cases same
    exact binary_strength op
  · cases found

/-- No operator that may follow an operand has the strength of one that stands before it. -/
theorem following_lt {op : UnaryOperator} (place : op.position = .before) {ts : List String}
    (weak : following ts ≤ op.precedence) : following ts < operandStrength op := by
  have strengths : following ts ≠ 4 ∧ following ts < 11 := by
    unfold following
    split
    · rename_i found
      exact link_strength found
    · decide
  cases op with
  | not => exact Nat.lt_of_le_of_ne weak strengths.1
  | isNull | isNotNull => exact absurd place (by decide)
  | _ => exact Nat.lt_of_lt_of_le strengths.2 (by decide)

/-- The text of `t` is read as its regrouped form, as the first operand of what goes on. -/
def ReadsFirst (t : Expr) : Prop :=
  ∀ ⦃least : Nat⦄ ⦃rest last : List String⦄ ⦃e : Expr⦄, least ≤ t.level →
    following rest ≤ t.level → rest.head? ≠ some "(" → Continues least t.regroup rest e last →
      Reads least (t.words ++ rest) e last

/-- After an operator that is not stronger, the text of `t` goes on with the expression before. -/
def ReadsAfter (t : Expr) : Prop :=
  ∀ ⦃op : BinaryOperator⦄ ⦃left : Expr⦄ ⦃least : Nat⦄ ⦃rest last : List String⦄ ⦃e : Expr⦄,
    op ≠ .between → (op.precedence < t.level ∨ Joins op t) → least ≤ op.precedence →
      following rest ≤ op.precedence → rest.head? ≠ some "(" →
        Continues least (attach op left t.regroup) rest e last →
          Continues least left (op.words ++ (t.words ++ rest)) e last

section
variable {least : Nat} {rest last : List String} {e t left low high a b : Expr}
variable {op : BinaryOperator}

theorem continues_of_stronger (opening : Opening t) (first : ReadsFirst t)
    (other : op ≠ .between) (strong : op.precedence < t.level) (enough : least ≤ op.precedence)
    (weak : following rest ≤ op.precedence) (ends : rest.head? ≠ some "(")
    (more : Continues least (attach op left t.regroup) rest e last) :
    Continues least left (op.words ++ (t.words ++ rest)) e last := by
  have link : link? (op.words ++ (t.words ++ rest)) = some (.binary op, t.words ++ rest) := by
    refine link?_words ?_
    intro comparison
    obtain ⟨w, first, -, null, negation⟩ := opening
    have above : 4 < t.level := by
      rw [isComparison_eq, decide_eq_true_eq] at comparison
      omega
    rw [head?_append_of_some first]
    constructor
    · rintro ⟨rfl⟩
      exact absurd (negation rfl) (by omega)
    · rintro ⟨rfl⟩
      exact null rfl
  have operand : Reads (op.precedence + 1) (t.words ++ rest) t.regroup rest :=
    first strong (by omega) ends (.stop (by omega))
  refine .binary other link enough operand ?_
  rwa [attach_of_ne (by rw [level_regroup]; omega)] at more

theorem readsAfter_of_first (opening : Opening t) (first : ReadsFirst t)
    (apart : ∀ op, ¬Joins op t) : ReadsAfter t := by
  intro op left least rest last e other place
  obtain strong | joins := place
  · exact continues_of_stronger opening first other strong
  · exact absurd joins (apart op)

theorem readsFirst_of_operand
    (operand : ∀ rest, rest.head? ≠ some "(" → following rest ≤ t.level →
      ReadsOperand (t.words ++ rest) t.regroup rest) : ReadsFirst t := by
  intro least rest last e _ weak ends more
  exact .of_operand (operand rest ends weak) more

theorem level_pos (t : Expr) : 1 ≤ t.level := by
  cases t with
  | unary op e u => cases op <;> exact Nat.le_of_ble_eq_true rfl
  | binary op l r u => cases op <;> exact Nat.le_of_ble_eq_true rfl
  | _ => exact Nat.le_of_ble_eq_true rfl

theorem readsAs_of_first (first : ReadsFirst t) : ReadsAs t.words t.regroup := by
  intro rest closes
  have none := closes.following_eq
  exact first (level_pos t) (by omega) closes.head?_ne (.stop (by omega))

theorem readsFirst_of_names (names : Names t.display t) (same : t.regroup = t) :
    ReadsFirst t := by
  refine readsFirst_of_operand ?_
  intro rest ends _
  have operand := ReadsOperand.leaf (isWord_of_not_special names.operand) ends
  rw [words_of_names names, same]
  rwa [names.read] at operand

theorem readsFirst_function {n : String} {args : List Expr} (plain : isPlainName n = true)
    (each : ∀ a ∈ args, Opening a ∧ ReadsFirst a) : ReadsFirst (.function n args) := by
  refine readsFirst_of_operand ?_
  intro rest _ _
  have word := isWord_of_not_special (not_special_of_plain plain)
  rw [words_function (tokens_plain plain), regroup_function, List.cons_append, List.cons_append,
    List.append_assoc]
  refine .function word ?_ rest
  intro a mem
  obtain ⟨opening, first⟩ := each a mem
  exact ⟨opening.opens, readsAs_of_first first⟩

theorem readsFirst_parenthesis (first : ReadsFirst t) : ReadsFirst (.parenthesis t) := by
  refine readsFirst_of_operand ?_
  intro rest _ _
  rw [words_parenthesis, List.cons_append, List.append_assoc]
  exact .parenthesis (readsAs_of_first first (")" :: rest) (closes_cons (by decide)))

theorem readsFirst_case {s o : Option Expr} {arms : List (Expr × Expr)}
    (subject : ∀ e ∈ s, Opening e ∧ ReadsFirst e)
    (each : ∀ arm ∈ arms, ReadsFirst arm.1 ∧ ReadsFirst arm.2) (branch : ∀ e ∈ o, ReadsFirst e) :
    ReadsFirst (.case s arms o) := by
  refine readsFirst_of_operand ?_
  intro rest _ _
  rw [words_case, regroup_case]
  simp only [List.cons_append, List.append_assoc, List.nil_append]
  refine .case ?_ ?_ ?_ rest
  · intro e mem
    obtain ⟨opening, first⟩ := subject e mem
    exact ⟨opening.opens, readsAs_of_first first⟩
  · intro arm mem
    obtain ⟨condition, result⟩ := each arm mem
    exact ⟨readsAs_of_first condition, readsAs_of_first result⟩
  · exact fun e mem => readsAs_of_first (branch e mem)

theorem readsFirst_before {op : UnaryOperator} (place : op.position = .before)
    (tight : (Expr.unary op t .undefined).Tight) (operand : ReadsFirst t) :
    ReadsFirst (.unary op t .undefined) := by
  refine readsFirst_of_operand ?_
  intro rest ends weak
  rw [level_unary] at weak
  have strong := (level_of_unary_bare tight.operand.1).1 place
  have stops := following_lt place weak
  have spelling : before? op.spelling = some op := by
    cases op <;> first | rfl | exact absurd place (by decide)
  rw [tight.words_before place]
  exact .before spelling (operand strong (by omega) ends (.stop stops))

theorem readsFirst_after {op : UnaryOperator} (place : op.position = .after)
    (tight : (Expr.unary op t .undefined).Tight) (operand : ReadsFirst t) :
    ReadsFirst (.unary op t .undefined) := by
  intro least rest last e enough weak ends more
  rw [level_unary] at enough weak
  have strong := (level_of_unary_bare tight.operand.1).2 place
  have link : link? (op.words ++ rest) = some (.unary op, rest) := by
    cases op <;> first | rfl | exact absurd place (by decide)
  have next : following (op.words ++ rest) = op.precedence := by
    rw [following, link]
    rfl
  have ends : (op.words ++ rest).head? ≠ some "(" := by
    cases op <;> simp [UnaryOperator.words, UnaryOperator.spelling]
  rw [tight.words_after place, List.append_assoc]
  exact operand (by omega) (by omega) ends (.unary link enough more)

theorem readsFirst_binary {l r : Expr} (plain : ¬IsRange op r)
    (tight : (Expr.binary op l r .undefined).Tight) (other : op ≠ .between) (first : ReadsFirst l)
    (second : ReadsAfter r) : ReadsFirst (.binary op l r .undefined) := by
  intro least rest last e enough weak ends more
  rw [level_binary] at enough weak
  obtain ⟨⟨left, -⟩, right, -⟩ := tight.operands plain
  have strong := precedence_le_level (level_of_bare left)
  rw [tight.words_binary plain, List.append_assoc, List.append_assoc]
  refine first (by omega) ?_ (head?_words_ne op _) ?_
  · rwa [following_words]
  · exact second other (level_of_bare (bare_of_groupsRight right)) enough weak ends more

/-- Before an operation of its own strength, an operator takes the first operand alone. -/
theorem readsAfter_binary {l r : Expr} (plain : ¬IsRange op r)
    (tight : (Expr.binary op l r .undefined).Tight) (other : op ≠ .between)
    (opening : Opening (.binary op l r .undefined)) (whole : ReadsFirst (.binary op l r .undefined))
    (first : ReadsAfter l) (second : ReadsAfter r) : ReadsAfter (.binary op l r .undefined) := by
  intro outer left least rest last e notRange place enough weak ends more
  obtain strong | ⟨_, _, _, _, ⟨⟩, same, free⟩ := place
  · exact continues_of_stronger opening whole notRange strong enough weak ends more
  · obtain ⟨⟨bare, -⟩, right, -⟩ := tight.operands plain
    rw [tight.words_binary plain, List.append_assoc, List.append_assoc]
    refine first notRange (joins_of_same same free (level_of_bare bare)) enough ?_
      (head?_words_ne op _) ?_
    · rw [following_words]
      exact Nat.le_of_eq same
    · refine second other (level_of_bare (bare_of_groupsRight right)) (by omega) (by omega) ends ?_
      rwa [regroup_binary, attach_attach same] at more

theorem readsFirst_range {low high : Expr}
    (tight : (Expr.binary .between t (.binary .and low high .undefined) .undefined).Tight)
    (first : ReadsFirst t) (lower : ReadsFirst low) (upper : ReadsFirst high) :
    ReadsFirst (.binary .between t (.binary .and low high .undefined) .undefined) := by
  intro least rest last e enough weak ends more
  rw [level_binary] at enough weak
  obtain ⟨⟨subject, -⟩, ⟨bottom, -⟩, top, -⟩ := tight.bounds
  have strong : 5 < t.level := lt_level_of_comparison rfl (level_of_bare subject)
  have strongLow : 5 < low.level := lt_level_of_comparison rfl (level_of_bare bottom)
  have strongHigh : 5 < high.level := lt_level_of_comparison rfl (level_of_bare top)
  have weak : following rest ≤ 5 := weak
  have enough : least ≤ 5 := enough
  have range : following ("BETWEEN" :: (low.words ++ "AND" :: (high.words ++ rest))) = 5 := rfl
  have conjunction : following ("AND" :: (high.words ++ rest)) = 3 := rfl
  have text : t.words ++ "BETWEEN" :: (low.words ++ "AND" :: high.words) ++ rest =
      t.words ++ "BETWEEN" :: (low.words ++ "AND" :: (high.words ++ rest)) := by simp
  rw [regroup_range strongHigh] at more
  rw [tight.words_range, text]
  refine first (by omega) (by omega) (by simp) ?_
  refine .range rfl enough (lower strongLow (by omega) (by simp) (.stop (by omega))) ?_ more
  exact upper strongHigh (by omega) ends (.stop (by omega))

end

theorem not_joins_of_comparison {inner : BinaryOperator} (comparison : inner.isComparison = true)
    (op : BinaryOperator) (l r : Expr) (u : DataType) : ¬Joins op (.binary inner l r u) := by
  rintro ⟨_, _, _, _, ⟨⟩, same, other⟩
  rw [isComparison_eq, same, ← isComparison_eq, other] at comparison
  cases comparison

theorem reads_of_first {t : Expr} (tight : t.Tight) (legible : t.Legible)
    (apart : t.isBinary = false) (first : ReadsFirst t) : ReadsFirst t ∧ ReadsAfter t := by
  refine ⟨first, readsAfter_of_first (opening tight legible) first ?_⟩
  rintro op ⟨_, _, _, _, rfl, _⟩
  cases apart

/-- The text of an enclosed expression is read as its regrouped form, wherever it stands. -/
theorem reads_regrouped {t : Expr} (tight : t.Tight) (legible : t.Legible) :
    ReadsFirst t ∧ ReadsAfter t := by
  induction t, tight, legible using inductionOnLegible with
  | literal v u tight legible =>
    exact reads_of_first tight legible rfl (readsFirst_of_names legible.names_literal rfl)
  | parameter n tight legible =>
    exact reads_of_first tight legible rfl (readsFirst_of_names legible.names_parameter rfl)
  | column p tight legible =>
    exact reads_of_first tight legible rfl (readsFirst_of_names legible.names_column rfl)
  | function n args tight legible ih =>
    refine reads_of_first tight legible rfl (readsFirst_function legible.self.1 ?_)
    exact fun a mem => ⟨opening (tight.argument mem) (legible.argument mem), (ih a mem).1⟩
  | parenthesis e tight legible ih =>
    exact reads_of_first tight legible rfl (readsFirst_parenthesis ih.1)
  | unary op e tight legible ih =>
    refine reads_of_first tight legible rfl ?_
    cases place : op.position with
    | before => exact readsFirst_before place tight ih.1
    | after => exact readsFirst_after place tight ih.1
    | between => cases op <;> cases place
  | range e low high tight legible he hlow hhigh =>
    have first := readsFirst_range tight he.1 hlow.1 hhigh.1
    have comparison : BinaryOperator.between.isComparison = true := rfl
    exact ⟨first, readsAfter_of_first (opening tight legible) first fun op =>
      not_joins_of_comparison comparison op e _ .undefined⟩
  | binary op l r other plain tight legible hl hr =>
    have first := readsFirst_binary plain tight other hl.1 hr.2
    exact ⟨first,
      readsAfter_binary plain tight other (opening tight legible) first hl.2 hr.2⟩
  | case s arms o tight legible hs harms ho =>
    refine reads_of_first tight legible rfl (readsFirst_case ?_ ?_ ?_)
    · exact fun e mem => ⟨opening (tight.subject mem) (legible.subject mem), (hs e mem).1⟩
    · exact fun arm mem => ⟨(harms arm mem).1.1, (harms arm mem).2.1⟩
    · exact fun e mem => (ho e mem).1

/-- Enclosed expressions of one text differ only within chains of operators of one strength. -/
theorem regroup_eq_of_display_eq {s t : Expr} (tightLeft : s.Tight) (left : s.Legible)
    (tightRight : t.Tight) (right : t.Legible) (same : s.display = t.display) :
    s.regroup = t.regroup := by
  have ends : Closes [] := fun t first => nomatch first
  have first := readsAs_of_first (reads_regrouped tightLeft left).1 [] ends
  have second := readsAs_of_first (reads_regrouped tightRight right).1 [] ends
  have words : s.words = t.words := by rw [words, words, same]
  rw [words] at first
  exact (Prod.mk.inj (first.unique second)).1

end SqlFragment.Grouping
