import SqlFragment.Proofs.Expr.Enclosure
import SqlFragment.Proofs.Grammar.Names
import SqlFragment.Proofs.Grammar.Operators
import SqlFragment.Proofs.Grammar.Tracking.Expression

/-
The expressions that are read from texts: which nodes they hold, where operators and lists stand in
them, and which words their texts begin with.
-/
namespace SqlFragment

/-- Names that neither open a timestamp nor are read as an operator or as a case distinction. -/
def plainName (n : String) : Bool :=
  !n.toList.contains '#' && !(["not", "exists", "case"].contains n.toLower)

def Value.isNumber : Value → Bool
  | integer _ | float _ => true
  | _ => false

namespace Expr

/-- Nodes whose text is read as the node itself: no floats, no signs before numbers, plain names. -/
def plainNode : Expr → Bool
  | .literal (.float _) _ => false
  | .unary op (.literal v _) _ => !(v.isNumber && (op == .plus || op == .minus))
  | .column path => path.all plainName
  | .function name _ => plainName name
  | _ => true

def Plain (e : Expr) : Prop := e.All fun x => x.plainNode

instance (e : Expr) : Decidable e.Plain := inferInstanceAs (Decidable (e.All fun x => x.plainNode))

def isItem : Expr → Bool
  | .list .. => false
  | _ => true

def isTerm : Expr → Bool
  | .list .. | .binary .. => false
  | _ => true

/-- The terms that an operator after them can be read with. -/
def isBase : Expr → Bool
  | .list .. | .binary .. => false
  | .unary op .. => op.position == .after
  | _ => true

theorem isItem_of_isTerm {e : Expr} (term : e.isTerm = true) : e.isItem = true := by
  cases e <;> first | rfl | exact term

theorem isTerm_of_isBase {e : Expr} (base : e.isBase = true) : e.isTerm = true := by
  cases e <;> first | rfl | exact base

end Expr

namespace Grammar
open Rule

def Unreserved (n : String) : Prop := ∀ w ∈ ["true", "false", "null"], ¬Begins w n.toList

instance (n : String) : Decidable (Unreserved n) :=
  inferInstanceAs (Decidable (∀ w ∈ ["true", "false", "null"], ¬Begins w n.toList))

/-- What holds of every node of an expression that is read from a text. -/
def parsedNode : Expr → Prop
  | .literal v t => t = v.dataType ∧ Denoted v
  | .parameter n => IsParameter n
  | .column p => IsPath p ∧ ∀ n ∈ p.head?, Unreserved n
  | .function n args => isName n = true ∧ Unreserved n ∧ ∀ a ∈ args, a.isItem = true
  | .list items s => s = ", " ∧ items.length ≠ 1 ∧ ∀ i ∈ items, i.isItem = true
  | .parenthesis _ => True
  | .unary op e t => t = .undefined ∧ e.isTerm = true ∧ (op.position = .after → e.isBase = true)
  | .binary op l r t => t = .undefined ∧ op ≠ .between ∧ l.isTerm = true ∧ r.isItem = true ∧
      (op = .is ∨ op = .isNot → ¬Begins "null" r.display.toList) ∧
      (op = .is → ¬Begins "not" r.display.toList)
  | .case subject arms otherwise => arms ≠ [] ∧
      (∀ e ∈ subject, e.isItem = true ∧ ¬Begins "when" e.display.toList) ∧
      (∀ arm ∈ arms, arm.1.isItem = true ∧ arm.2.isItem = true) ∧
      ∀ e ∈ otherwise, e.isItem = true
  | .table _ | .raw .. => False

/-- The words that another rule looks for come from the text that was read. -/
def Opening (e : Expr) (cs : List Char) : Prop :=
  (Begins "null" e.display.toList → Begins "null" cs) ∧
    (Begins "when" e.display.toList → Begins "when" cs) ∧
    (Begins "not" e.display.toList → ∃ rest, (token "not" true).Gives cs () rest)

structure Parsed (e : Expr) (cs : List Char) : Prop where
  nodes : e.All parsedNode
  item : e.isItem = true
  opening : Opening e cs

section
variable {e : Expr} {cs rest : List Char}

theorem head_of_begins {w : String} {c d : Char} {tail more : List Char} (begins : Begins w (c :: tail))
    (word : w.toList = d :: more) : c.toLower = d := by
  rw [Begins, firstWord, word, List.takeWhile_cons] at begins
  split at begins
  · exact (List.cons.inj begins).1
  · cases begins

theorem not_begins_of_head {w : String} {c d : Char} {more : List Char} (word : w.toList = d :: more)
    (other : c.toLower ≠ d) (tail : List Char) : ¬Begins w (c :: tail) :=
  fun begins => other (head_of_begins begins word)

theorem opening_of_head {c : Char} {tail : List Char} (text : e.display.toList = c :: tail)
    (other : c.toLower ≠ 'n' ∧ c.toLower ≠ 'w') : Opening e cs := by
  rw [Opening, text]
  exact ⟨fun begins => absurd begins (not_begins_of_head rfl other.1 tail),
    fun begins => absurd begins (not_begins_of_head rfl other.2 tail),
    fun begins => absurd begins (not_begins_of_head rfl other.1 tail)⟩

/-- An operand opens the text of its operation, unless it is enclosed there. -/
theorem Opening.append {whole : Expr} {enclosing : Bool} {more : List Char} (opening : Opening e cs)
    (text : whole.display.toList = (enclosedIf enclosing e.display).toList ++ ' ' :: more) :
    Opening whole cs := by
  cases enclosing with
  | true =>
    have opened : whole.display.toList = '(' :: (e.display.toList ++ ')' :: ' ' :: more) := by
      simp [text, enclosedIf, enclosed]
    exact opening_of_head opened (by decide)
  | false =>
    have blank : EndsWord (' ' :: more) := endsWord_cons (by decide) more
    simp only [Opening, text, enclosedIf, Bool.false_eq_true, ↓reduceIte, begins_append _ _ blank]
    exact opening

theorem parsed_literal {rule : Rule Expr} (reads : ReadsLiterals rule) (gives : rule.Gives cs e rest)
    (plain : e.Plain) : Parsed e cs ∧ e.isBase = true := by
  obtain ⟨v, rfl, denoted, null⟩ := reads gives
  refine ⟨⟨(Expr.all_leaf rfl).2 ⟨rfl, denoted⟩, rfl, ?_⟩, rfl⟩
  by_cases named : v = .null
  · subst named
    exact ⟨fun _ => null rfl, fun begins => absurd begins (by decide),
      fun begins => absurd begins (by decide)⟩
  · have whole : ∀ x, v ≠ .float x := by
      rintro x rfl
      cases plain.self
    obtain ⟨c, tail, text, marked | ⟨-, digit⟩⟩ := display_cons named whole
    · have others : ['t', 'f', '-', '\'', '#', 'X'].all (fun d =>
          decide (d.toLower ≠ 'n' ∧ d.toLower ≠ 'w')) = true := by decide
      exact opening_of_head text (of_decide_eq_true (List.all_eq_true.1 others c marked))
    · refine opening_of_head text ?_
      rw [Text.toLower_of_isDigit digit]
      constructor <;>
      · rintro rfl
        exact absurd digit (by decide)

theorem begins_name {w n : String} {mid : List Char} (first : name.Gives cs n mid) :
    Begins w cs ↔ Begins w n.toList := by
  obtain ⟨-, rfl, ends⟩ := gives_name first
  exact begins_append w n.toList ends

theorem toLower_of_begins {w n : String} (named : isName n = true) (begins : Begins w n.toList) :
    n.toLower = w := by
  obtain ⟨-, -, -, -, parts⟩ := isName_cons named
  have word : firstWord n.toList = n.toList := by
    have whole := firstWord_append parts endsWord_nil
    rwa [List.append_nil] at whole
  rw [Begins, word, ← String.toList_map] at begins
  exact String.toList_inj.1 begins

theorem not_begins_of_plain {w n : String} (named : isName n = true) (plain : plainName n = true)
    (reserved : w ∈ ["not", "exists", "case"]) : ¬Begins w n.toList := by
  intro begins
  rw [plainName, toLower_of_begins named begins] at plain
  simp [reserved] at plain

/-- A name at the start of a text is the same word in the text that was read. -/
theorem opening_of_name {n : String} {mid more : List Char} (first : name.Gives cs n mid)
    (plain : plainName n = true) (text : e.display.toList = n.toList ++ more) (ends : EndsWord more) :
    Opening e cs := by
  have named := (gives_name first).1
  simp only [Opening, text, begins_append _ _ ends, begins_name first]
  exact ⟨id, id, fun begins => absurd begins (not_begins_of_plain named plain (by decide))⟩

theorem unreserved_of_constant_misses {n : String} {mid : List Char} (misses : constant.Misses cs)
    (first : name.Gives cs n mid) : Unreserved n := by
  have absent : ∀ {w : String} {v : Value}, IsKeyword w →
      (keyword w *> pure (Expr.value v) : Rule Expr).Misses cs → ¬Begins w n.toList := by
    intro w v isKeyword misses begins
    have found := keyword_gives_of_begins isKeyword ((begins_name first).2 begins)
    exact (found.seqRight (gives_pure (a := Expr.value v))).not_misses misses
  obtain ⟨noTrue, later⟩ := misses_orElse misses
  obtain ⟨noFalse, noNull⟩ := misses_orElse later
  exact List.forall_mem_cons.2 ⟨absent (by decide) noTrue, List.forall_mem_cons.2
    ⟨absent (by decide) noFalse, List.forall_mem_singleton.2 (absent (by decide) noNull)⟩⟩

end

def Sound (rule : Rule Expr) : Prop :=
  ∀ ⦃cs e rest⦄, rule.Gives cs e rest → e.Plain → Parsed e cs

section
variable {expression : Rule Expr} {e : Expr} {cs rest : List Char}

theorem path_sound (noConstant : constant.Misses cs) (gives : path.Gives cs e rest)
    (plain : e.Plain) : Parsed e cs ∧ e.isBase = true := by
  obtain ⟨n, names, mid, rfl, isPath, first⟩ := gives_path gives
  have unreserved := unreserved_of_constant_misses noConstant first
  have plainNames : ∀ m ∈ n :: names, plainName m = true := List.all_eq_true.1 plain.self
  refine ⟨⟨(Expr.all_leaf rfl).2 ⟨isPath, by simpa using unreserved⟩, rfl, ?_⟩, rfl⟩
  refine opening_of_name first (plainNames n List.mem_cons_self) (display_cons_toList n names) ?_
  simpa using endsWord_dotted names endsWord_nil

theorem parameter_sound (gives : parameter.Gives cs e rest) : Parsed e cs ∧ e.isBase = true := by
  obtain ⟨n, rfl, named⟩ := gives_parameter gives
  refine ⟨⟨(Expr.all_leaf rfl).2 named, rfl, ?_⟩, rfl⟩
  have text : (Expr.parameter n).display.toList = ':' :: n.toList := by simp [Expr.display]
  exact opening_of_head text (by decide)

theorem gives_listItem (gives : (listItem expression).Gives cs e rest) :
    ∃ start last, expression.Gives start e last := by
  obtain ⟨_, _, -, gives⟩ := gives_bind gives
  obtain ⟨e, last, given, gives⟩ := gives_bind gives
  obtain ⟨_, _, -, gives⟩ := gives_bind gives
  cases gives
  exact ⟨_, _, given⟩

theorem gives_expressions {es : List Expr} (gives : (expressions expression).Gives cs es rest) :
    ∀ e ∈ es, ∃ start last, expression.Gives start e last := by
  obtain gives | ⟨-, gives⟩ := gives_orElse gives
  · obtain ⟨_, _, -, gives⟩ := gives_bind gives
    obtain ⟨_, _, -, gives⟩ := gives_bind gives
    cases gives
    simp
  · obtain ⟨first, _, head, gives⟩ := gives_bind gives
    obtain ⟨later, _, tail, gives⟩ := gives_bind gives
    obtain ⟨_, _, -, gives⟩ := gives_bind gives
    cases gives
    refine List.forall_mem_cons.2 ⟨gives_listItem head, ?_⟩
    intro e mem
    obtain ⟨start, last, given⟩ := gives_of_mem_many tail mem
    obtain ⟨_, _, -, given⟩ := gives_seqRight given
    exact gives_listItem given

theorem gives_function (gives : (function expression).Gives cs e rest) :
    ∃ n args mid, e = .function n args ∧ name.Gives cs n mid ∧
      ∀ a ∈ args, ∃ start last, expression.Gives start a last := by
  obtain ⟨n, mid, first, gives⟩ := gives_bind gives
  obtain ⟨_, _, -, gives⟩ := gives_bind gives
  obtain ⟨args, _, items, gives⟩ := gives_bind gives
  cases gives
  exact ⟨n, args, mid, rfl, first, gives_expressions items⟩

theorem function_sound (sound : Sound expression) (noConstant : constant.Misses cs)
    (gives : (function expression).Gives cs e rest) (plain : e.Plain) :
    Parsed e cs ∧ e.isBase = true := by
  obtain ⟨n, args, mid, rfl, first, items⟩ := gives_function gives
  obtain ⟨plainNode, plainArgs⟩ := (Expr.all_function n args).1 plain
  have each : ∀ a ∈ args, ∃ start, Parsed a start := by
    intro a mem
    obtain ⟨start, last, given⟩ := items a mem
    exact ⟨start, sound given (plainArgs a mem)⟩
  have unreserved := unreserved_of_constant_misses noConstant first
  refine ⟨⟨(Expr.all_function n args).2 ⟨⟨(gives_name first).1, unreserved, ?_⟩, ?_⟩, rfl, ?_⟩, rfl⟩
  · intro a mem
    obtain ⟨start, parsed⟩ := each a mem
    exact parsed.item
  · intro a mem
    obtain ⟨start, parsed⟩ := each a mem
    exact parsed.nodes
  · have text : (Expr.function n args).display.toList =
        n.toList ++ '(' :: ((", ".intercalate (Expr.displayAll args)).toList ++ [')']) := by
      simp [Expr.display, enclosed]
    exact opening_of_name first plainNode text (endsWord_cons (by decide) _)

theorem gives_group (gives : (group expression).Gives cs e rest) :
    ∃ items, (∀ i ∈ items, ∃ start last, expression.Gives start i last) ∧
      ((∃ i, items = [i] ∧ e = .parenthesis i) ∨
        items.length ≠ 1 ∧ e = .parenthesis (.commaList items)) := by
  obtain ⟨_, _, -, gives⟩ := gives_bind gives
  obtain ⟨items, _, read, gives⟩ := gives_bind gives
  refine ⟨items, gives_expressions read, ?_⟩
  split at gives
  · rename_i i
    cases gives
    exact .inl ⟨i, rfl, rfl⟩
  · rename_i several
    cases gives
    refine .inr ⟨fun one => ?_, rfl⟩
    obtain ⟨i, rfl⟩ := List.length_eq_one_iff.1 one
    exact several i rfl

theorem group_sound (sound : Sound expression) (gives : (group expression).Gives cs e rest)
    (plain : e.Plain) : Parsed e cs ∧ e.isBase = true := by
  obtain ⟨items, read, shape⟩ := gives_group gives
  have each : ∀ i ∈ items, i.Plain → i.All parsedNode ∧ i.isItem = true := by
    intro i mem plain
    obtain ⟨start, last, given⟩ := read i mem
    exact ⟨(sound given plain).nodes, (sound given plain).item⟩
  have opening : ∀ {inner : Expr}, Opening (.parenthesis inner) cs := by
    intro inner
    have text : (Expr.parenthesis inner).display.toList = '(' :: (inner.display.toList ++ [')']) := by
      simp [Expr.display, enclosed]
    exact opening_of_head text (by decide)
  obtain ⟨i, rfl, rfl⟩ | ⟨count, rfl⟩ := shape
  · have plainItem := ((Expr.all_parenthesis i).1 plain).2
    have nodes := (each i (List.mem_singleton.2 rfl) plainItem).1
    exact ⟨⟨(Expr.all_parenthesis i).2 ⟨trivial, nodes⟩, rfl, opening⟩, rfl⟩
  · have plainItems := ((Expr.all_list items ", ").1 ((Expr.all_parenthesis _).1 plain).2).2
    refine ⟨⟨(Expr.all_parenthesis _).2 ⟨trivial, (Expr.all_list items ", ").2 ⟨?_, ?_⟩⟩, rfl,
      opening⟩, rfl⟩
    · exact ⟨rfl, count, fun i mem => (each i mem (plainItems i mem)).2⟩
    · exact fun i mem => (each i mem (plainItems i mem)).1

theorem gives_required {α : Type} {rule : Rule α} {a : α} (gives : (required rule).Gives cs a rest) :
    rule.Gives cs a rest := by
  obtain ⟨_, _, same, gives⟩ := gives_bind gives
  cases same
  obtain gives | ⟨-, gives⟩ := gives_orElse gives
  · exact gives
  · exact absurd gives gives_unexpected

theorem gives_caseArm {arm : Expr × Expr} (gives : (caseArm expression).Gives cs arm rest) :
    (∃ start last, expression.Gives start arm.1 last) ∧
      ∃ start last, expression.Gives start arm.2 last := by
  obtain ⟨_, _, -, gives⟩ := gives_bind gives
  obtain ⟨_, _, -, gives⟩ := gives_bind gives
  obtain ⟨_, _, -, gives⟩ := gives_bind gives
  obtain ⟨condition, _, first, gives⟩ := gives_bind gives
  obtain ⟨_, _, -, gives⟩ := gives_bind gives
  obtain ⟨_, _, -, gives⟩ := gives_bind gives
  obtain ⟨_, _, -, gives⟩ := gives_bind gives
  obtain ⟨result, _, second, gives⟩ := gives_bind gives
  cases gives
  exact ⟨⟨_, _, gives_required first⟩, ⟨_, _, gives_required second⟩⟩

theorem gives_caseTail {subject : Option Expr} {start : List Char}
    (gives : (caseTail expression start subject).Gives cs e rest) :
    ∃ arms otherwise, e = .case subject arms otherwise ∧ arms ≠ [] ∧
      (∀ arm ∈ arms, (∃ start last, expression.Gives start arm.1 last) ∧
        ∃ start last, expression.Gives start arm.2 last) ∧
      ∀ o ∈ otherwise, ∃ start last, expression.Gives start o last := by
  obtain ⟨arms, _, read, gives⟩ := gives_bind gives
  split at gives
  · exact absurd gives gives_unexpected
  rename_i some
  obtain ⟨otherwise, _, branch, gives⟩ := gives_bind gives
  obtain ⟨_, _, -, gives⟩ := gives_bind gives
  cases gives
  refine ⟨arms, otherwise, rfl, fun none => some (List.isEmpty_iff.2 none), ?_, ?_⟩
  · intro arm mem
    obtain ⟨_, _, given⟩ := gives_of_mem_many read mem
    exact gives_caseArm given
  · rintro o ⟨rfl⟩
    obtain ⟨_, ⟨rfl⟩, given⟩ | ⟨none, -⟩ := gives_optional branch
    · obtain ⟨_, _, -, given⟩ := gives_bind given
      obtain ⟨_, _, -, given⟩ := gives_bind given
      obtain ⟨_, _, -, given⟩ := gives_bind given
      exact ⟨_, _, given⟩
    · cases none

theorem gives_caseOf (gives : (caseOf expression).Gives cs e rest) :
    ∃ subject arms otherwise, e = .case subject arms otherwise ∧ arms ≠ [] ∧
      (∀ s ∈ subject, ∃ start last, expression.Gives start s last ∧ ¬Begins "when" start) ∧
      (∀ arm ∈ arms, (∃ start last, expression.Gives start arm.1 last) ∧
        ∃ start last, expression.Gives start arm.2 last) ∧
      ∀ o ∈ otherwise, ∃ start last, expression.Gives start o last := by
  obtain ⟨_, _, -, gives⟩ := gives_bind gives
  obtain ⟨_, _, -, gives⟩ := gives_bind gives
  obtain ⟨_, start, -, gives⟩ := gives_bind gives
  obtain ⟨whens, _, looked, gives⟩ := gives_bind gives
  obtain ⟨rfl, rfl⟩ := looked.unique (comesNext_gives (by decide))
  obtain ⟨subject, _, read, gives⟩ := gives_bind gives
  obtain ⟨arms, otherwise, rfl, some, each, branch⟩ := gives_caseTail gives
  refine ⟨subject, arms, otherwise, rfl, some, ?_, each, branch⟩
  rintro s ⟨rfl⟩
  split at read
  · cases read
  · rename_i other
    obtain ⟨_, given, ⟨rfl⟩⟩ := gives_map read
    exact ⟨_, _, given, by simpa using other⟩

theorem display_case (subject : Option Expr) (arms : List (Expr × Expr)) (otherwise : Option Expr) :
    (Expr.case subject arms otherwise).display.toList = "CASE".toList ++
      (Expr.displayOption subject ++ Expr.displayArms arms ++
        (Expr.displayOption otherwise).map ("ELSE " ++ ·) ++ ["END"]).flatMap
          fun piece => ' ' :: piece.toList := by
  simp only [Expr.display, List.cons_append]
  exact Text.toList_intercalate_cons " " "CASE" _

theorem caseOf_sound (sound : Sound expression) (gives : (caseOf expression).Gives cs e rest)
    (plain : e.Plain) : Parsed e cs ∧ e.isBase = true := by
  obtain ⟨subject, arms, otherwise, rfl, some, subjectRead, armsRead, otherwiseRead⟩ :=
    gives_caseOf gives
  obtain ⟨-, plainSubject, plainArms, plainOtherwise⟩ := (Expr.all_case _ _ _).1 plain
  have subjectParsed : ∀ s ∈ subject, s.All parsedNode ∧ s.isItem = true ∧
      ¬Begins "when" s.display.toList := by
    intro s mem
    obtain ⟨start, last, given, other⟩ := subjectRead s mem
    have parsed := sound given (plainSubject s mem)
    exact ⟨parsed.nodes, parsed.item, fun begins => other (parsed.opening.2.1 begins)⟩
  have partParsed : ∀ x : Expr, (∃ start last, expression.Gives start x last) → x.Plain →
      x.All parsedNode ∧ x.isItem = true := by
    rintro x ⟨start, last, given⟩ plain
    exact ⟨(sound given plain).nodes, (sound given plain).item⟩
  have armParsed : ∀ arm ∈ arms, (arm.1.All parsedNode ∧ arm.1.isItem = true) ∧
      (arm.2.All parsedNode ∧ arm.2.isItem = true) := fun arm mem =>
    ⟨partParsed _ (armsRead arm mem).1 (plainArms arm mem).1,
      partParsed _ (armsRead arm mem).2 (plainArms arm mem).2⟩
  have otherwiseParsed : ∀ o ∈ otherwise, o.All parsedNode ∧ o.isItem = true := fun o mem =>
    partParsed o (otherwiseRead o mem) (plainOtherwise o mem)
  refine ⟨⟨(Expr.all_case _ _ _).2 ⟨⟨some, ?_, ?_, ?_⟩, ?_, ?_, ?_⟩, rfl, ?_⟩, rfl⟩
  · exact fun s mem => (subjectParsed s mem).2
  · exact fun arm mem => ⟨(armParsed arm mem).1.2, (armParsed arm mem).2.2⟩
  · exact fun o mem => (otherwiseParsed o mem).2
  · exact fun s mem => (subjectParsed s mem).1
  · exact fun arm mem => ⟨(armParsed arm mem).1.1, (armParsed arm mem).2.1⟩
  · exact fun o mem => (otherwiseParsed o mem).1
  · exact opening_of_head (display_case subject arms otherwise) (by decide)

section
variable {now : LocalTime}

theorem primary_sound (clock : now.Ordinary) (sound : Sound expression)
    (gives : ((standard now).primary expression).Gives cs e rest) (plain : e.Plain) :
    Parsed e cs ∧ e.isBase = true := by
  obtain gives | ⟨-, gives⟩ := gives_orElse gives
  · exact caseOf_sound sound gives plain
  obtain gives | ⟨-, gives⟩ := gives_orElse gives
  · exact parsed_literal (timestamp_reads clock) gives plain
  obtain gives | ⟨-, gives⟩ := gives_orElse gives
  · exact parsed_literal bytes_reads gives plain
  obtain gives | ⟨-, gives⟩ := gives_orElse gives
  · exact parsed_literal text_reads gives plain
  obtain gives | ⟨noConstant, gives⟩ := gives_orElse gives
  · exact parsed_literal constant_reads gives plain
  obtain gives | ⟨-, gives⟩ := gives_orElse gives
  · exact function_sound sound noConstant gives plain
  obtain gives | ⟨-, gives⟩ := gives_orElse gives
  · exact parameter_sound gives
  obtain gives | ⟨-, gives⟩ := gives_orElse gives
  · exact path_sound noConstant gives plain
  obtain gives | ⟨-, gives⟩ := gives_orElse gives
  · exact group_sound sound gives plain
  · cases gives

theorem display_after {op : UnaryOperator} (place : op.position = .after) (e : Expr)
    (t : DataType) : (Expr.unary op e t).display.toList =
      (enclosedIf (op.groups e e.display) e.display).toList ++ ' ' :: op.spelling.toList := by
  simp [Expr.display, UnaryOperator.write, place]

theorem parsed_after {op : UnaryOperator} (place : op.position = .after) (parsed : Parsed e cs)
    (base : e.isBase = true) : Parsed (.apply op e) cs ∧ (Expr.apply op e).isBase = true := by
  refine ⟨⟨(Expr.all_unary op e _).2 ⟨?_, parsed.nodes⟩, rfl,
    parsed.opening.append (display_after place e _)⟩, ?_⟩
  · exact ⟨rfl, Expr.isTerm_of_isBase base, fun _ => base⟩
  · simp [Expr.isBase, Expr.apply, place]

theorem foldlM_build {constructors : List Constructor} {base : Expr} {mid : List Char}
    (each : ∀ c ∈ constructors, ∃ op : UnaryOperator, c = .unary op ∧ op.position = .after)
    (gives : (constructors.foldlM (fun e c => Rule.build c [e]) base : Rule Expr).Gives mid e rest) :
    ∃ ops : List UnaryOperator, (∀ op ∈ ops, op.position = .after) ∧
      e = ops.foldl (fun e op => .apply op e) base ∧ rest = mid := by
  induction constructors generalizing base with
  | nil =>
    cases gives
    exact ⟨[], by simp, rfl, rfl⟩
  | cons c constructors ih =>
    obtain ⟨⟨op, rfl, place⟩, later⟩ := List.forall_mem_cons.1 each
    rw [List.foldlM_cons] at gives
    obtain ⟨applied, _, built, gives⟩ := gives_bind gives
    cases built
    obtain ⟨ops, places, whole, same⟩ := ih later gives
    exact ⟨op :: ops, List.forall_mem_cons.2 ⟨place, places⟩, whole, same⟩

/-- Operators after an operand are applied one by one, until none is left over. -/
theorem gives_withOperatorsAfter {rule : Rule Expr}
    (gives : ((standard now).withOperatorsAfter rule).Gives cs e rest) :
    ∃ base mid, ∃ ops : List UnaryOperator, rule.Gives cs base mid ∧
      (∀ op ∈ ops, op.position = .after) ∧ e = ops.foldl (fun e op => .apply op e) base ∧
      (standard now).operatorAfter.Misses rest := by
  obtain ⟨base, mid, read, gives⟩ := gives_bind gives
  obtain ⟨constructors, last, repeated, gives⟩ := gives_bind gives
  have noneAfter : (standard now).operatorAfter.Misses last := by
    refine misses_after_many ?_ repeated
    intro start c last given
    obtain ⟨_, -, -, shorter⟩ := gives_operatorAfter given
    exact shorter
  have each : ∀ c ∈ constructors, ∃ op : UnaryOperator, c = .unary op ∧ op.position = .after := by
    intro c mem
    obtain ⟨_, _, given⟩ := gives_of_mem_many repeated mem
    obtain ⟨op, same, place, -⟩ := gives_operatorAfter given
    exact ⟨op, same, place⟩
  obtain ⟨ops, places, rfl, rfl⟩ := foldlM_build each gives
  exact ⟨base, mid, ops, read, places, rfl, noneAfter⟩

theorem parsed_afterwards {ops : List UnaryOperator} {base : Expr}
    (places : ∀ op ∈ ops, op.position = .after)
    (plain : (ops.foldl (fun e op => .apply op e) base).Plain)
    (sound : base.Plain → Parsed base cs ∧ base.isBase = true) :
    Parsed (ops.foldl (fun e op => .apply op e) base) cs ∧
      (ops.foldl (fun e op => .apply op e) base).isBase = true := by
  induction ops generalizing base with
  | nil => exact sound plain
  | cons op ops ih =>
    obtain ⟨place, later⟩ := List.forall_mem_cons.1 places
    refine ih later plain fun plainApplied => ?_
    obtain ⟨parsed, isBase⟩ := sound ((Expr.all_unary op base _).1 plainApplied).2
    exact parsed_after place parsed isBase

/-- Terms are no binary operations, and no operator after them is left over. -/
def TermSound (now : LocalTime) (rule : Rule Expr) : Prop :=
  ∀ ⦃cs e rest⦄, rule.Gives cs e rest → e.Plain →
    Parsed e cs ∧ e.isTerm = true ∧ (standard now).operatorAfter.Misses rest

theorem withOperatorsAfter_sound {rule : Rule Expr}
    (sound : ∀ {cs e rest}, rule.Gives cs e rest → e.Plain → Parsed e cs ∧ e.isBase = true) :
    TermSound now ((standard now).withOperatorsAfter rule) := by
  intro cs e rest gives plain
  obtain ⟨base, mid, ops, read, places, rfl, noneAfter⟩ := gives_withOperatorsAfter gives
  obtain ⟨parsed, isBase⟩ := parsed_afterwards places plain (sound read)
  exact ⟨parsed, Expr.isTerm_of_isBase isBase, noneAfter⟩

theorem display_before {op : UnaryOperator} (place : op.position = .before) (e : Expr)
    (t : DataType) : (Expr.unary op e t).display.toList =
      prefixText op ++ (enclosedIf (op.groups e e.display) e.display).toList := by
  cases keyword : op.isKeyword <;>
    simp [Expr.display, UnaryOperator.write, prefixText, place, keyword]

theorem parsed_before {op : UnaryOperator} {start : List Char} (place : op.position = .before)
    (term : e.isTerm = true) (parsed : Parsed e start)
    (negation : op = .not → ∃ mid, (token "not" true).Gives cs () mid) :
    Parsed (.apply op e) cs := by
  refine ⟨(Expr.all_unary op e _).2 ⟨⟨rfl, term, ?_⟩, parsed.nodes⟩, rfl, ?_⟩
  · intro after
    rw [place] at after
    cases after
  · have text := display_before place e .undefined
    cases op with
    | not =>
      have blank : EndsWord (' ' :: (enclosedIf (UnaryOperator.not.groups e e.display)
        e.display).toList) := endsWord_cons (by decide) _
      have begins : ∀ w, Begins w (Expr.apply .not e).display.toList ↔ Begins w "NOT".toList := by
        intro w
        rw [Expr.apply, text]
        exact begins_append w "NOT".toList blank
      exact ⟨fun null => absurd ((begins "null").1 null) (by decide),
        fun whens => absurd ((begins "when").1 whens) (by decide), fun _ => negation rfl⟩
    | minus | plus | bitwiseNot | existence => exact opening_of_head text (by decide)
    | isNull | isNotNull => cases place

theorem applied_sound {term : Rule Expr} (sound : TermSound now term) :
    TermSound now ((standard now).applied term) := by
  intro cs e rest gives plain
  obtain ⟨op, operand, start, rfl, place, read, negation⟩ := gives_applied gives
  obtain ⟨parsed, isTerm, noneAfter⟩ := sound read ((Expr.all_unary op operand _).1 plain).2
  exact ⟨parsed_before place isTerm parsed negation, rfl, noneAfter⟩

theorem termOf_sound {term : Rule Expr} (clock : now.Ordinary) (sound : Sound expression)
    (termSound : TermSound now term) : TermSound now ((standard now).termOf expression term) := by
  intro cs e rest gives plain
  obtain gives | ⟨-, gives⟩ := gives_orElse gives
  · exact withOperatorsAfter_sound (parsed_literal number_reads) gives plain
  obtain gives | ⟨-, gives⟩ := gives_orElse gives
  · exact applied_sound termSound gives plain
  obtain gives | ⟨-, gives⟩ := gives_orElse gives
  · exact withOperatorsAfter_sound (primary_sound clock sound) gives plain
  · cases gives

theorem display_between {op : BinaryOperator} (other : op ≠ .between) (l r : Expr) (t : DataType) :
    (Expr.binary op l r t).display.toList = (enclosedIf (op.groups l false) l.display).toList ++
      ' ' :: (op.spelling.toList ++ ' ' :: (enclosedIf (op.groupsRight r) r.display).toList) := by
  rw [Expr.display_binary (Expr.not_isRange_of_ne other), Expr.writeRight_eq]
  simp [BinaryOperator.writeOperand]

theorem parsed_combine {op : BinaryOperator} {l r : Expr} {start : List Char} (other : op ≠ .between)
    (term : l.isTerm = true) (left : Parsed l cs) (right : Parsed r start)
    (notNull : op = .is ∨ op = .isNot → ¬Begins "null" start)
    (notNegated : op = .is → ¬∃ last, (token "not" true).Gives start () last) :
    Parsed (.combine op l r) cs := by
  have text := display_between other l r .undefined
  refine ⟨(Expr.all_binary op l r _).2 ⟨⟨rfl, other, term, right.item, ?_, ?_⟩, left.nodes,
    right.nodes⟩, rfl, left.opening.append text⟩
  · exact fun equality begins => notNull equality (right.opening.1 begins)
  · exact fun equality begins => notNegated equality (right.opening.2.2 begins)

/-- A term stands alone, or an operator follows that takes all that comes after it. -/
theorem gives_expressionOf {term : Rule Expr}
    (gives : ((standard now).expressionOf term expression).Gives cs e rest) :
    term.Gives cs e rest ∨ ∃ op left right mid between,
      e = .combine op left right ∧ term.Gives cs left mid ∧
      (standard now).operatorBetween.Gives mid (.binary op) between ∧
      expression.Gives (Text.skipBlank between) right rest := by
  obtain ⟨left, mid, first, gives⟩ := gives_bind gives
  obtain ⟨continued, last, more, result⟩ := gives_bind gives
  obtain ⟨⟨c, right⟩, rfl, operation⟩ | ⟨rfl, rfl⟩ := gives_optional more
  · obtain ⟨_, between, operator, operation⟩ := gives_bind operation
    obtain ⟨_, start, skipped, operation⟩ := gives_bind operation
    obtain ⟨_, _, second, operation⟩ := gives_bind operation
    cases operation
    cases skipped
    obtain ⟨op, rfl, -⟩ := gives_operatorBetween operator
    cases result
    exact .inr ⟨op, left, right, mid, between, rfl, first, operator, second⟩
  · cases result
    exact .inl first

theorem expressionOf_sound {term : Rule Expr} (termSound : TermSound now term)
    (sound : Sound expression) : Sound ((standard now).expressionOf term expression) := by
  intro cs e rest gives plain
  obtain alone | ⟨op, left, right, mid, between, rfl, first, operator, second⟩ :=
    gives_expressionOf gives
  · exact (termSound alone plain).1
  · obtain ⟨_, ⟨rfl⟩, other, notNull, notNegated⟩ := gives_operatorBetween operator
    obtain ⟨-, plainLeft, plainRight⟩ := (Expr.all_binary op left right _).1 plain
    obtain ⟨parsedLeft, isTerm, noneAfter⟩ := termSound first plainLeft
    exact parsed_combine other isTerm parsedLeft (sound second plainRight) (notNull noneAfter)
      notNegated

/-- Every expression that is read from a text has the nodes of read expressions. -/
theorem level_sound (clock : now.Ordinary) (depth : Nat) :
    Sound ((standard now).level depth).expression ∧
      TermSound now ((standard now).level depth).term := by
  induction depth with
  | zero =>
    constructor
    · intro cs e rest gives
      cases gives
    · intro cs e rest gives
      cases gives
  | succ depth ih =>
    have term := termOf_sound clock ih.1 ih.2
    exact ⟨expressionOf_sound term ih.1, term⟩

theorem parse_standard (now : LocalTime) (s : String) :
    (standard now).parse s = (standard now).parseChars s.toList := by
  have spelled : Operators.standard.Spelled := by decide
  exact parse_eq spelled s

theorem gives_of_parse {s : String} (read : (standard now).parse s = .ok e) :
    ∃ depth start rest, ((standard now).level depth).expression.Gives start e rest := by
  rw [parse_standard, parseChars] at read
  dsimp only at read
  split at read
  · cases read
  · cases read
  · cases read
  · rename_i result rest gives
    split at read
    · cases read
      exact ⟨_, _, rest, gives⟩
    · cases read

theorem parsed_of_parse (clock : now.Ordinary) {s : String} (read : (standard now).parse s = .ok e)
    (plain : e.Plain) : e.All parsedNode ∧ e.isItem = true := by
  obtain ⟨depth, start, rest, gives⟩ := gives_of_parse read
  have parsed := (level_sound clock depth).1 gives plain
  exact ⟨parsed.nodes, parsed.item⟩

end

end

end Grammar
end SqlFragment
