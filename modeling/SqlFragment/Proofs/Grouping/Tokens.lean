import SqlFragment.Proofs.Expr.Enclosure
import SqlFragment.Proofs.Grouping.Canonical

/-
Texts of expressions as lists of tokens: words, signs and marks. Blanks only divide tokens, so the
tokens of a text are those of its pieces, one piece after the other.
-/
namespace SqlFragment.Grouping

def isWordChar (c : Char) : Bool := c.isAlphanum || c == '.' || c == ':'

def isSignChar (c : Char) : Bool := c == '=' || c == '<' || c == '>' || c == '|'

/-- The characters that go on with a token that begins with `c`. -/
def goesOn (c : Char) : Char → Bool :=
  if isWordChar c then isWordChar else if isSignChar c then isSignChar else fun _ => false

def tokens : List Char → List String
  | [] => []
  | c :: cs =>
    if c = ' ' then tokens cs
    else String.ofList (c :: cs.takeWhile (goesOn c)) :: tokens (cs.dropWhile (goesOn c))
termination_by cs => cs.length
decreasing_by
  · simp
  · exact Nat.lt_succ_of_le (List.dropWhile_sublist _).length_le

theorem tokens_nil : tokens [] = [] := by rw [tokens]

theorem tokens_blank (cs : List Char) : tokens (' ' :: cs) = tokens cs := by
  rw [tokens, if_pos rfl]

/-- Characters at which a token ends, whatever it is. -/
def Divides (c : Char) : Prop := isWordChar c = false ∧ isSignChar c = false

instance (c : Char) : Decidable (Divides c) := inferInstanceAs (Decidable (_ ∧ _))

theorem goesOn_of_divides {c : Char} (divides : Divides c) (first : Char) :
    goesOn first c = false := by
  unfold goesOn
  split
  · exact divides.1
  · split
    · exact divides.2
    · rfl

theorem takeWhile_append_stop {p : Char → Bool} {c : Char} (stop : p c = false)
    (front rest : List Char) : (front ++ c :: rest).takeWhile p = front.takeWhile p := by
  induction front with
  | nil => simp [stop]
  | cons d front ih => simp only [List.cons_append, List.takeWhile_cons, ih]

theorem dropWhile_append_stop {p : Char → Bool} {c : Char} (stop : p c = false)
    (front rest : List Char) : (front ++ c :: rest).dropWhile p = front.dropWhile p ++ c :: rest := by
  induction front with
  | nil => simp [stop]
  | cons d front ih =>
    simp only [List.cons_append, List.dropWhile_cons, ih]
    split <;> rfl

theorem tokens_append {c : Char} (divides : Divides c) (front rest : List Char) :
    tokens (front ++ c :: rest) = tokens front ++ tokens (c :: rest) := by
  induction size : front.length using Nat.strongRecOn generalizing front with
  | ind n ih =>
    subst size
    cases front with
    | nil => simp [tokens]
    | cons d front =>
      rw [List.cons_append, tokens, tokens]
      split
      · exact ih front.length (by simp) front rfl
      · have stop := goesOn_of_divides divides d
        have shorter : (front.dropWhile (goesOn d)).length < (d :: front).length :=
          Nat.lt_succ_of_le (List.dropWhile_sublist _).length_le
        rw [takeWhile_append_stop stop, dropWhile_append_stop stop, List.cons_append,
          ih _ shorter _ rfl]

theorem tokens_append_blank (front rest : List Char) :
    tokens (front ++ ' ' :: rest) = tokens front ++ tokens rest := by
  rw [tokens_append (by decide), tokens_blank]

def IsMark (c : Char) : Prop := Divides c ∧ c ≠ ' '

instance (c : Char) : Decidable (IsMark c) := inferInstanceAs (Decidable (_ ∧ _))

theorem tokens_mark {c : Char} (mark : IsMark c) (cs : List Char) :
    tokens (c :: cs) = String.singleton c :: tokens cs := by
  have none : goesOn c = fun _ => false := by simp [goesOn, mark.1.1, mark.1.2]
  rw [tokens, if_neg mark.2, none]
  cases cs <;> rfl

theorem tokens_run {p : Char → Bool} (runs : ∀ c, p c = true → goesOn c = p ∧ c ≠ ' ')
    {run : List Char} (nonempty : run ≠ []) (all : run.all p = true) :
    tokens run = [String.ofList run] := by
  cases run with
  | nil => exact absurd rfl nonempty
  | cons c cs =>
    have parts := List.all_eq_true.mp all
    obtain ⟨kind, visible⟩ := runs c (parts c (by simp))
    have rest : ∀ d ∈ cs, p d = true := fun d hd => parts d (by simp [hd])
    have taken : cs.takeWhile p = cs := by
      simpa using @List.takeWhile_append_of_pos _ p cs [] rest
    have dropped : cs.dropWhile p = [] := by
      simpa using @List.dropWhile_append_of_pos _ p cs [] rest
    rw [tokens, if_neg visible, kind, taken, dropped, tokens_nil]

theorem tokens_word {word : List Char} (nonempty : word ≠ []) (all : word.all isWordChar = true) :
    tokens word = [String.ofList word] := by
  refine tokens_run ?_ nonempty all
  intro c here
  refine ⟨by simp [goesOn, here], ?_⟩
  rintro rfl
  exact absurd here (by decide)

theorem tokens_sign {sign : List Char} (nonempty : sign ≠ []) (all : sign.all isSignChar = true) :
    tokens sign = [String.ofList sign] := by
  refine tokens_run ?_ nonempty all
  intro c here
  have signs : c = '=' ∨ c = '<' ∨ c = '>' ∨ c = '|' := by
    simpa [isSignChar, or_assoc] using here
  have apart : isWordChar c = false ∧ c ≠ ' ' := by
    obtain rfl | rfl | rfl | rfl := signs <;> decide
  exact ⟨by simp [goesOn, apart.1, here], apart.2⟩

theorem tokens_commaSeparated (texts : List (List Char)) :
    tokens ([',', ' '].intercalate texts) = [","].intercalate (texts.map tokens) := by
  induction texts with
  | nil => simp [tokens]
  | cons text texts ih =>
    cases texts with
    | nil => simp
    | cons next texts =>
      rw [List.intercalate_cons_cons, List.map_cons, List.map_cons, List.intercalate_cons_cons,
        List.append_assoc, List.cons_append, tokens_append (by decide), tokens_mark (by decide),
        List.cons_append, tokens_blank]
      simp_all

theorem tokens_blankSeparated (texts : List (List Char)) :
    tokens ([' '].intercalate texts) = texts.flatMap tokens := by
  induction texts with
  | nil => simp [tokens]
  | cons text texts ih =>
    cases texts with
    | nil => simp
    | cons next texts =>
      rw [List.intercalate_cons_cons, List.append_assoc, List.cons_append, tokens_append_blank]
      simp_all

end SqlFragment.Grouping

namespace SqlFragment
open Grouping

theorem tokens_reserved (word : String) (reserved : word ∈ reservedWords) :
    tokens word.toList = [word] := by
  have plain : ∀ w ∈ reservedWords, w.toList ≠ [] ∧ w.toList.all isWordChar = true := by decide
  rw [tokens_word (plain word reserved).1 (plain word reserved).2, String.ofList_toList]

theorem tokens_reserved_cons {word : String} (reserved : word ∈ reservedWords) (rest : List Char) :
    tokens (word.toList ++ ' ' :: rest) = word :: tokens rest := by
  rw [tokens_append_blank, tokens_reserved word reserved]
  rfl

def BinaryOperator.words : BinaryOperator → List String
  | .notLike => ["NOT", "LIKE"]
  | .notIn => ["NOT", "IN"]
  | .isNot => ["IS", "NOT"]
  | op => [op.spelling]

theorem tokens_binarySpelling (op : BinaryOperator) : tokens op.spelling.toList = op.words := by
  have single : op.spelling ∈ reservedWords → tokens op.spelling.toList = [op.spelling] :=
    tokens_reserved op.spelling
  cases op with
  | like | isIn | is | between | and | or | xor => exact single (by decide)
  | notLike =>
    exact (tokens_reserved_cons (by decide) "LIKE".toList).trans
      (congrArg (List.cons "NOT") (tokens_reserved "LIKE" (by decide)))
  | notIn =>
    exact (tokens_reserved_cons (by decide) "IN".toList).trans
      (congrArg (List.cons "NOT") (tokens_reserved "IN" (by decide)))
  | isNot =>
    exact (tokens_reserved_cons (by decide) "NOT".toList).trans
      (congrArg (List.cons "IS") (tokens_reserved "NOT" (by decide)))
  | plus | minus | multiply | divide | modulo | bitwiseAnd | bitwiseXor =>
    exact (tokens_mark (by decide) []).trans (congrArg (List.cons _) tokens_nil)
  | _ => exact tokens_sign (by decide) (by decide)

def UnaryOperator.words : UnaryOperator → List String
  | .isNull => ["IS", "NULL"]
  | .isNotNull => ["IS", "NOT", "NULL"]
  | op => [op.spelling]

theorem tokens_unarySpelling (op : UnaryOperator) : tokens op.spelling.toList = op.words := by
  have null : tokens "NULL".toList = ["NULL"] := tokens_reserved "NULL" (by decide)
  cases op with
  | not => exact tokens_reserved "NOT" (by decide)
  | existence => exact tokens_reserved "EXISTS" (by decide)
  | minus | plus | bitwiseNot =>
    exact (tokens_mark (by decide) []).trans (congrArg (List.cons _) tokens_nil)
  | isNull =>
    exact (tokens_reserved_cons (by decide) "NULL".toList).trans (congrArg (List.cons "IS") null)
  | isNotNull =>
    refine (tokens_reserved_cons (by decide) "NOT NULL".toList).trans (congrArg (List.cons "IS") ?_)
    exact (tokens_reserved_cons (by decide) "NULL".toList).trans (congrArg (List.cons "NOT") null)

namespace Expr

def words (e : Expr) : List String := tokens e.display.toList

theorem words_parenthesis (e : Expr) : (Expr.parenthesis e).words = "(" :: (e.words ++ [")"]) := by
  have text : (Expr.parenthesis e).display.toList = '(' :: (e.display.toList ++ [')']) := by
    simp [display, enclosed]
  rw [words, text, tokens_mark (by decide), tokens_append (by decide), tokens_mark (by decide),
    tokens_nil]
  rfl

theorem words_function {name : String} (plain : tokens name.toList = [name]) (args : List Expr) :
    (Expr.function name args).words =
      name :: "(" :: ([","].intercalate (args.map words) ++ [")"]) := by
  have text : (Expr.function name args).display.toList = name.toList ++ '(' ::
      ([',', ' '].intercalate (args.map fun a => a.display.toList) ++ [')']) := by
    simp [display, enclosed, displayAll_eq_map, Function.comp_def]
  rw [words, text, tokens_append (by decide), plain, tokens_mark (by decide),
    tokens_append (by decide), tokens_mark (by decide), tokens_nil, tokens_commaSeparated,
    List.map_map]
  rfl

theorem tokens_arm (w t : Expr) :
    tokens ("WHEN " ++ w.display ++ " THEN " ++ t.display).toList =
      "WHEN" :: (w.words ++ "THEN" :: t.words) := by
  have text : ("WHEN " ++ w.display ++ " THEN " ++ t.display).toList = "WHEN".toList ++
      ' ' :: (w.display.toList ++ ' ' :: ("THEN".toList ++ ' ' :: t.display.toList)) := by simp
  rw [text]
  simp only [tokens_append_blank]
  rw [tokens_reserved "WHEN" (by decide), tokens_reserved "THEN" (by decide)]
  rfl

theorem tokens_otherwise (e : Expr) : tokens ("ELSE " ++ e.display).toList = "ELSE" :: e.words := by
  have text : ("ELSE " ++ e.display).toList = "ELSE".toList ++ ' ' :: e.display.toList := by simp
  rw [text, tokens_append_blank, tokens_reserved "ELSE" (by decide)]
  rfl

theorem words_case (s : Option Expr) (arms : List (Expr × Expr)) (o : Option Expr) :
    (Expr.case s arms o).words = "CASE" :: (s.toList.flatMap words ++
      (arms.flatMap (fun arm => "WHEN" :: (arm.1.words ++ "THEN" :: arm.2.words)) ++
        (o.toList.flatMap (fun e => "ELSE" :: e.words) ++ ["END"]))) := by
  rw [words, display, String.toList_intercalate]
  refine (tokens_blankSeparated _).trans ?_
  simp only [displayOption_eq_map, displayArms_eq_map, List.map_append, List.map_cons, List.map_map,
    List.flatMap_append, List.flatMap_cons, List.flatMap_map, Function.comp_def, List.map_nil,
    List.flatMap_nil, tokens_arm, tokens_otherwise, tokens_reserved "CASE" (by decide),
    tokens_reserved "END" (by decide), List.append_assoc, List.cons_append, List.nil_append]
  rfl

section
variable {e l r low high : Expr} {t u : DataType}

theorem Tight.words_before {op : UnaryOperator} (place : op.position = .before)
    (tight : (Expr.unary op e t).Tight) : (Expr.unary op e t).words = op.spelling :: e.words := by
  rw [words, tight.display_before place, beforeOperand]
  cases keyword : op.isKeyword with
  | true =>
    have text : (op.spelling ++ " " ++ e.display).toList =
        op.spelling.toList ++ ' ' :: e.display.toList := by simp
    have single : op.words = [op.spelling] := by
      cases op <;> first | rfl | exact absurd place (by decide)
    rw [if_pos rfl, text, tokens_append_blank, tokens_unarySpelling, single]
    rfl
  | false =>
    obtain ⟨c, mark, sign⟩ : ∃ c, IsMark c ∧ op.spelling = String.singleton c := by
      cases op with
      | minus => exact ⟨'-', by decide, rfl⟩
      | plus => exact ⟨'+', by decide, rfl⟩
      | bitwiseNot => exact ⟨'~', by decide, rfl⟩
      | not | existence | isNull | isNotNull => exact absurd keyword (by decide)
    have text : (op.spelling ++ e.display).toList = c :: e.display.toList := by simp [sign]
    rw [if_neg Bool.false_ne_true, text, tokens_mark mark, sign]
    rfl

theorem Tight.words_after {op : UnaryOperator} (place : op.position = .after)
    (tight : (Expr.unary op e t).Tight) : (Expr.unary op e t).words = e.words ++ op.words := by
  have text : (e.display ++ " " ++ op.spelling).toList =
      e.display.toList ++ ' ' :: op.spelling.toList := by simp
  rw [words, tight.display_after place, text, tokens_append_blank, tokens_unarySpelling]
  rfl

theorem Tight.words_binary {op : BinaryOperator} (plain : ¬IsRange op r)
    (tight : (Expr.binary op l r t).Tight) :
    (Expr.binary op l r t).words = l.words ++ (op.words ++ r.words) := by
  have text : (l.display ++ " " ++ op.spelling ++ " " ++ r.display).toList =
      l.display.toList ++ ' ' :: (op.spelling.toList ++ ' ' :: r.display.toList) := by simp
  rw [words, tight.display_binary plain, text, tokens_append_blank, tokens_append_blank,
    tokens_binarySpelling]
  rfl

theorem Tight.words_range
    (tight : (Expr.binary .between e (.binary .and low high t) u).Tight) :
    (Expr.binary .between e (.binary .and low high t) u).words =
      e.words ++ "BETWEEN" :: (low.words ++ "AND" :: high.words) := by
  have text : (e.display ++ " BETWEEN " ++ (low.display ++ " AND " ++ high.display)).toList =
      e.display.toList ++ ' ' :: ("BETWEEN".toList ++ ' ' :: (low.display.toList ++
        ' ' :: ("AND".toList ++ ' ' :: high.display.toList))) := by simp
  rw [words, tight.display_range, text]
  simp only [tokens_append_blank]
  rw [tokens_reserved "BETWEEN" (by decide), tokens_reserved "AND" (by decide)]
  rfl

end

end Expr
end SqlFragment
