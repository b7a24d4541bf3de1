import SqlFragment.Proofs.Dialect.Hyphens
import SqlFragment.Proofs.Expr.Filling

/-
No comment opens where the parts of an expression meet. Nothing is written right behind an operand
but blanks, commas and parentheses, and only a sign is written right before one; it encloses an
operand whose text begins with a sign. So the text of an expression opens a comment only inside the
text of a leaf or in a name. The same holds when texts are put in the places of the leaves.
-/
namespace SqlFragment
open Text

section
variable {text : String}

theorem CommentFree.enclosed (clean : CommentFree text) : CommentFree (enclosed text) :=
  (clean.after (m := "(") (by decide)).before (m := ")") (by decide)

theorem CommentFree.enclosedIf (clean : CommentFree text) (needed : Bool) :
    CommentFree (enclosedIf needed text) := by
  cases needed with
  | false => exact clean
  | true => exact clean.enclosed

theorem head?_of_not_startsWithSign (unsigned : startsWithSign text = false) :
    text.toList.head? ≠ some '-' := by
  intro begins
  obtain ⟨rest, front⟩ := List.head?_eq_some_iff.mp begins
  simp [startsWithSign, front] at unsigned

theorem commentFree_hyphen : CommentFree "-" := fun opens => absurd opens.length_le (by decide)

/-- A sign is never followed by another one. -/
theorem CommentFree.write (clean : CommentFree text) (op : UnaryOperator) (operand : Expr) :
    CommentFree (op.write operand text) := by
  have inner := clean.enclosedIf (op.groups operand text)
  have signed {sign : String} (single : CommentFree sign) (symbolic : op.isKeyword = false) :
      CommentFree (sign ++ SqlFragment.enclosedIf (op.groups operand text) text) := by
    refine single.append inner (.inr ?_)
    cases grouped : op.groups operand text with
    | true => simp [SqlFragment.enclosedIf, SqlFragment.enclosed]
    | false =>
      -- an operand that begins with a sign would be enclosed
      simp only [UnaryOperator.groups, symbolic, Bool.not_false, Bool.true_and, Bool.or_eq_false_iff]
        at grouped
      exact head?_of_not_startsWithSign grouped.2
  cases op with
  | not => exact inner.after (m := "NOT" ++ " ") (by decide)
  | existence => exact inner.after (m := "EXISTS" ++ " ") (by decide)
  | isNull => exact (inner.before (m := " ") (by decide)).before (by decide)
  | isNotNull => exact (inner.before (m := " ") (by decide)).before (by decide)
  | minus => exact signed commentFree_hyphen rfl
  | plus => exact signed (commentFree_of_not_mem (by decide)) rfl
  | bitwiseNot => exact signed (commentFree_of_not_mem (by decide)) rfl

theorem commentFree_spelling (op : BinaryOperator) : CommentFree op.spelling := by
  cases op with
  | minus => exact commentFree_hyphen
  | _ => exact commentFree_of_not_mem (by decide)

theorem CommentFree.writeRight (clean : CommentFree text) (op : BinaryOperator) (operand : Expr) :
    CommentFree (op.writeRight operand text) := by
  unfold BinaryOperator.writeRight
  split
  · exact CommentFree.enclosedIf (clean.enclosedIf _) _
  · exact clean.enclosedIf _

end

namespace Expr

/-- What a node itself brings into the text opens no comment. -/
def Tame (x : Expr) : Prop :=
  match x with
  | .literal .. | .parameter _ | .column _ | .table _ | .raw .. => CommentFree x.display
  | .function name _ => CommentFree name
  | .list _ separator => separator = ", "
  | .parenthesis _ | .unary .. | .binary .. | .case .. => True

theorem commentFree_case {s o : Option Expr} {arms : List (Expr × Expr)}
    (subject : ∀ e ∈ s, CommentFree e.display)
    (each : ∀ arm ∈ arms, CommentFree arm.1.display ∧ CommentFree arm.2.display)
    (branch : ∀ e ∈ o, CommentFree e.display) : CommentFree (display (.case s arms o)) := by
  rw [display, displayOption_eq_map, displayArms_eq_map, displayOption_eq_map]
  refine commentFree_intercalate ?_ (by decide) (by decide)
  intro word mem
  simp only [List.cons_append, List.mem_cons, List.mem_append, List.mem_map, Option.mem_toList,
    List.not_mem_nil, or_false] at mem
  rcases mem with rfl | ((⟨e, inside, rfl⟩ | ⟨arm, inside, rfl⟩) | ⟨_, ⟨e, inside, rfl⟩, rfl⟩) | rfl
  · exact commentFree_of_not_mem (by decide)
  · exact subject e inside
  · have condition := (each arm inside).1.after (m := "WHEN ") (by decide)
    exact condition.divided (each arm inside).2 (by decide) (by decide)
  · exact (branch e inside).after (by decide)
  · exact commentFree_of_not_mem (by decide)

theorem commentFree_items {items : List Expr} (each : ∀ i ∈ items, CommentFree i.display) :
    CommentFree (", ".intercalate (displayAll items)) := by
  rw [displayAll_eq_map]
  refine commentFree_intercalate ?_ (by decide) (by decide)
  intro text mem
  obtain ⟨item, inside, rfl⟩ := List.mem_map.mp mem
  exact each item inside

theorem commentFree_display {e : Expr} (tame : e.All Tame) : CommentFree e.display := by
  induction e using inductionOnParts with
  | literal v t => exact (all_leaf rfl).mp tame
  | parameter n => exact (all_leaf rfl).mp tame
  | column p => exact (all_leaf rfl).mp tame
  | table p => exact (all_leaf rfl).mp tame
  | raw s t => exact (all_leaf rfl).mp tame
  | function n args ih =>
    obtain ⟨name, parts⟩ := (all_function n args).mp tame
    have arguments := commentFree_items fun a mem => ih a mem (parts a mem)
    have inside := name.divided (m := "(") arguments (by decide) (by decide)
    have whole := inside.before (m := ")") (by decide)
    rw [display, enclosed]
    simpa only [String.append_assoc] using whole
  | list items s ih =>
    obtain ⟨rfl, parts⟩ := (all_list items s).mp tame
    exact commentFree_items fun i mem => ih i mem (parts i mem)
  | parenthesis e ih => exact (ih ((all_parenthesis e).mp tame).2).enclosed
  | unary op e t ih => exact (ih ((all_unary op e t).mp tame).2).write op e
  | range l low high t u hl hlow hhigh =>
    obtain ⟨-, left, right⟩ := (all_binary _ l _ u).mp tame
    obtain ⟨-, lower, upper⟩ := (all_binary _ low high t).mp right
    refine ((hl left).enclosedIf _).divided ?_ (by decide) (by decide)
    exact ((hlow lower).enclosedIf _).divided ((hhigh upper).enclosedIf _) (by decide) (by decide)
  | binary op l r t plain hl hr =>
    obtain ⟨-, left, right⟩ := (all_binary op l r t).mp tame
    rw [display_binary plain]
    refine CommentFree.divided ?_ ((hr right).writeRight op r) (by decide) (by decide)
    exact ((hl left).enclosedIf _).divided (commentFree_spelling op) (by decide) (by decide)
  | case s arms o hs harms ho =>
    obtain ⟨-, subject, each, branch⟩ := (all_case s arms o).mp tame
    refine commentFree_case (fun e mem => hs e mem (subject e mem)) (fun arm mem => ?_)
      fun e mem => ho e mem (branch e mem)
    exact ⟨(harms arm mem).1 (each arm mem).1, (harms arm mem).2 (each arm mem).2⟩

/-- An action on the texts that are left keeps them free of comments and gives a good result. -/
def Yields {α : Type} (good : α → Prop) (a : StateM (List String) α) : Prop :=
  ∀ texts : List String, (∀ text ∈ texts, CommentFree text) →
    good (a.run texts).1 ∧ ∀ text ∈ (a.run texts).2, CommentFree text

section
variable {α β : Type} {good : α → Prop} {fine : β → Prop}

theorem yields_pure {x : α} (holds : good x) : Yields good (pure x) := fun _ clean => ⟨holds, clean⟩

theorem Yields.bind {a : StateM (List String) α} {k : α → StateM (List String) β}
    (first : Yields good a) (next : ∀ x, good x → Yields fine (k x)) : Yields fine (a >>= k) := by
  intro texts clean
  obtain ⟨holds, left⟩ := first texts clean
  exact next _ holds _ left

theorem yields_nextText : Yields CommentFree nextText := by
  intro texts clean
  cases texts with
  | nil => exact ⟨commentFree_of_not_mem (by decide), clean⟩
  | cons text texts => exact List.forall_mem_cons.mp clean

end

theorem yields_leaf (t : DataType) :
    Yields (All Tame) (do let text ← nextText; return Expr.raw text t) :=
  yields_nextText.bind fun _ clean => yields_pure ((all_leaf rfl).mpr clean)

abbrev FillsTamely (e : Expr) : Prop :=
  e.All Tame → Yields (All Tame) (e.fill fun _ => nextText)

theorem yields_fillAll {es : List Expr} (ih : ∀ e ∈ es, e.FillsTamely)
    (tame : ∀ e ∈ es, e.All Tame) :
    Yields (fun es => ∀ e ∈ es, e.All Tame) (fillAll (fun _ => nextText) es) := by
  induction es with
  | nil => exact yields_pure tame
  | cons e es rest =>
    obtain ⟨first, others⟩ := List.forall_mem_cons.mp tame
    obtain ⟨ihFirst, ihOthers⟩ := List.forall_mem_cons.mp ih
    exact (ihFirst first).bind fun _ head => (rest ihOthers others).bind fun _ tail =>
      yields_pure (List.forall_mem_cons.mpr ⟨head, tail⟩)

theorem yields_fillArms {arms : List (Expr × Expr)}
    (ih : ∀ arm ∈ arms, arm.1.FillsTamely ∧ arm.2.FillsTamely)
    (tame : ∀ arm ∈ arms, All Tame arm.1 ∧ All Tame arm.2) :
    Yields (fun arms => ∀ arm ∈ arms, All Tame arm.1 ∧ All Tame arm.2)
      (fillArms (fun _ => nextText) arms) := by
  induction arms with
  | nil => exact yields_pure tame
  | cons arm arms rest =>
    obtain ⟨⟨condition, result⟩, others⟩ := List.forall_mem_cons.mp tame
    obtain ⟨⟨ihCondition, ihResult⟩, ihOthers⟩ := List.forall_mem_cons.mp ih
    exact (ihCondition condition).bind fun _ first => (ihResult result).bind fun _ second =>
      (rest ihOthers others).bind fun _ tail =>
        yields_pure (List.forall_mem_cons.mpr ⟨⟨first, second⟩, tail⟩)

theorem yields_fillOption {o : Option Expr} (ih : ∀ e ∈ o, e.FillsTamely)
    (tame : ∀ e ∈ o, e.All Tame) :
    Yields (fun o => ∀ e ∈ o, e.All Tame) (fillOption (fun _ => nextText) o) := by
  cases o with
  | none => exact yields_pure tame
  | some e =>
    refine (ih e rfl (tame e rfl)).bind fun x holds => yields_pure ?_
    rintro _ ⟨rfl⟩
    exact holds

theorem fillsTamely_binary {op : BinaryOperator} {l r : Expr} {t : DataType}
    (left : l.FillsTamely) (right : r.FillsTamely) : FillsTamely (.binary op l r t) := by
  intro tame
  obtain ⟨-, tameLeft, tameRight⟩ := (all_binary op l r t).mp tame
  exact (left tameLeft).bind fun x first => (right tameRight).bind fun y second =>
    yields_pure ((all_binary op x y t).mpr ⟨trivial, first, second⟩)

theorem fillsTamely (e : Expr) : e.FillsTamely := by
  induction e using inductionOnParts with
  | literal v t => exact fun _ => yields_leaf t
  | parameter n | column p | table p => exact fun _ => yields_leaf .undefined
  | raw s t => exact fun tame => yields_pure tame
  | function n args ih =>
    intro tame
    obtain ⟨name, parts⟩ := (all_function n args).mp tame
    exact (yields_fillAll ih parts).bind fun xs each =>
      yields_pure ((all_function n xs).mpr ⟨name, each⟩)
  | list items s ih =>
    intro tame
    obtain ⟨separator, parts⟩ := (all_list items s).mp tame
    exact (yields_fillAll ih parts).bind fun xs each =>
      yields_pure ((all_list xs s).mpr ⟨separator, each⟩)
  | parenthesis e ih =>
    intro tame
    exact (ih ((all_parenthesis e).mp tame).2).bind fun x inner =>
      yields_pure ((all_parenthesis x).mpr ⟨trivial, inner⟩)
  | unary op e t ih =>
    intro tame
    exact (ih ((all_unary op e t).mp tame).2).bind fun x operand =>
      yields_pure ((all_unary op x t).mpr ⟨trivial, operand⟩)
  | range l low high t u hl hlow hhigh => exact fillsTamely_binary hl (fillsTamely_binary hlow hhigh)
  | binary op l r t plain hl hr => exact fillsTamely_binary hl hr
  | case s arms o hs harms ho =>
    intro tame
    obtain ⟨-, subject, each, branch⟩ := (all_case s arms o).mp tame
    exact (yields_fillOption hs subject).bind fun x first =>
      (yields_fillArms harms each).bind fun xs middle =>
        (yields_fillOption ho branch).bind fun y last =>
          yields_pure ((all_case x xs y).mpr ⟨trivial, first, middle, last⟩)

theorem commentFree_refill {e : Expr} (tame : e.All Tame) {texts : List String}
    (clean : ∀ text ∈ texts, CommentFree text) : CommentFree (e.refill texts).display :=
  commentFree_display (e.fillsTamely tame texts clean).1

/-- A node without hyphens of its own: those of numbers and timestamps, and the operators, are not
counted. Lists have the usual separator. -/
def Hyphenless : Expr → Prop
  | .literal v _ => v.Hyphenless
  | .parameter name => '-' ∉ name.toList
  | .column path | .table path => ∀ segment ∈ path, '-' ∉ segment.toList
  | .raw text _ => '-' ∉ text.toList
  | .function name _ => '-' ∉ name.toList
  | .list _ separator => separator = ", "
  | .parenthesis _ | .unary .. | .binary .. | .case .. => True

instance : DecidablePred Hyphenless
  | .literal v _ => inferInstanceAs (Decidable v.Hyphenless)
  | .parameter name => inferInstanceAs (Decidable ('-' ∉ name.toList))
  | .column path | .table path =>
    inferInstanceAs (Decidable (∀ segment ∈ path, '-' ∉ segment.toList))
  | .raw text _ => inferInstanceAs (Decidable ('-' ∉ text.toList))
  | .function name _ => inferInstanceAs (Decidable ('-' ∉ name.toList))
  | .list _ separator => inferInstanceAs (Decidable (separator = ", "))
  | .parenthesis _ | .unary .. | .binary .. | .case .. => isTrue trivial

theorem Hyphenless.tame {x : Expr} (plain : x.Hyphenless) : x.Tame := by
  cases x with
  | literal v t => exact (Value.hyphensLead_display plain).commentFree
  | parameter name => exact (commentFree_of_not_mem plain).after (m := ":") (by decide)
  | column path => exact commentFree_of_not_mem (not_mem_intercalate plain (by decide))
  | table path => exact commentFree_of_not_mem (not_mem_intercalate plain (by decide))
  | raw text t => exact commentFree_of_not_mem plain
  | function name args => exact commentFree_of_not_mem plain
  | list items separator => exact plain
  | parenthesis _ | unary _ _ _ | binary _ _ _ _ | case _ _ _ => trivial

theorem All.tame {e : Expr} (plain : e.All Hyphenless) : e.All Tame := fun x mem =>
  Hyphenless.tame (plain x mem)

end Expr

end SqlFragment
