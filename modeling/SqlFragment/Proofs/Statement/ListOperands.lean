import SqlFragment.Proofs.Expr.Enclosure
import SqlFragment.Proofs.Statement.Rendering

/-
Lists as operands. A list is written between parentheses behind a membership test, and behind a sign
when its text begins with a sign; in every other place it stands bare. The items of a bare list are
then counted among the items of the call or of the list that the operation stands in.
-/
namespace SqlFragment

namespace Text

/-- A text before and behind a joined text goes to the first and to the last of its parts. -/
theorem exists_intercalate_eq (separator front back : String) {texts : List String}
    (some : texts ≠ []) : ∃ parts : List String, parts.length = texts.length ∧
      front ++ separator.intercalate texts ++ back = separator.intercalate parts := by
  induction texts generalizing front with
  | nil => exact absurd rfl some
  | cons text texts ih =>
    cases texts with
    | nil => exact ⟨[front ++ text ++ back], rfl, by simp⟩
    | cons next rest =>
      obtain ⟨parts, length, joined⟩ := ih "" (List.cons_ne_nil next rest)
      have more : parts ≠ [] := by
        rintro rfl
        cases length
      refine ⟨(front ++ text) :: parts, congrArg (· + 1) length, ?_⟩
      rw [String.intercalate_cons_of_ne_nil more, ← joined, String.intercalate_cons_cons,
        String.empty_append]
      simp only [String.append_assoc]

/-- A joined text among other parts stands for its parts. -/
theorem intercalate_splice (separator : String) {texts : List String} (some : texts ≠ [])
    (xs ys : List String) :
    separator.intercalate (xs ++ separator.intercalate texts :: ys) =
      separator.intercalate (xs ++ (texts ++ ys)) := by
  have tail : separator.intercalate (separator.intercalate texts :: ys) =
      separator.intercalate (texts ++ ys) := by
    cases ys with
    | nil => simp
    | cons y ys =>
      rw [String.intercalate_cons_cons,
        String.intercalate_append_of_ne_nil some (List.cons_ne_nil y ys)]
  cases xs with
  | nil => exact tail
  | cons x xs =>
    rw [String.intercalate_append_of_ne_nil (List.cons_ne_nil x xs) (List.cons_ne_nil _ ys), tail,
      String.intercalate_append_of_ne_nil (List.cons_ne_nil x xs) (by simp [some])]

end Text

namespace Expr

def rightText : BinaryOperator → Expr → String
  | .between, .binary .and low high _ =>
    " BETWEEN " ++ (BinaryOperator.between.writeOperand low true low.display ++ " AND " ++
      BinaryOperator.between.writeOperand high true high.display)
  | op, r => " " ++ op.spelling ++ " " ++ op.writeRight r r.display

theorem display_binary_rightText (op : BinaryOperator) (l r : Expr) (t : DataType) :
    (Expr.binary op l r t).display = op.writeOperand l false l.display ++ rightText op r := by
  by_cases range : IsRange op r
  · obtain ⟨low, high, u, rfl, rfl⟩ := range
    rw [display, rightText, String.append_assoc]
  · have plain : rightText op r = " " ++ op.spelling ++ " " ++ op.writeRight r r.display := by
      refine rightText.eq_2 op r ?_
      intro low high u isBetween isAnd
      exact range ⟨low, high, u, isBetween, isAnd⟩
    rw [display_binary range, plain]
    simp only [String.append_assoc]

theorem display_range_leftText (s low high : Expr) (t u : DataType) :
    (Expr.binary .between s (.binary .and low high t) u).display =
      leftText .between s ++ BinaryOperator.between.writeOperand low true low.display ++ " AND " ++
        BinaryOperator.between.writeOperand high true high.display := by
  have word : " BETWEEN " = " " ++ BinaryOperator.between.spelling ++ " " := by decide
  rw [display, word, leftText]
  simp only [String.append_assoc]

theorem writeOperand_commaList (op : BinaryOperator) (items : List Expr) (right : Bool)
    (text : String) : op.writeOperand (commaList items) right text = text := rfl

end Expr

/-- The places of operands; a range has two bounds. -/
inductive Place where
  | operand (op : UnaryOperator)
  | left (op : BinaryOperator)
  | right (op : BinaryOperator)
  | low
  | high

/-- Whether a list, written as `text`, gets parentheses. -/
def Place.encloses : Place → String → Bool
  | .operand op, text => !op.isKeyword && startsWithSign text
  | .right op, _ => op.isMembership
  | .left _, _ | .low, _ | .high, _ => false

/-- An operation without one of its operands. -/
inductive Frame where
  | operand (op : UnaryOperator) (t : DataType)
  | left (op : BinaryOperator) (right : Expr) (t : DataType)
  | right (op : BinaryOperator) (left : Expr) (t : DataType)
  | low (subject high : Expr) (t u : DataType)
  | high (subject low : Expr) (t u : DataType)

namespace Frame
open SqlFragment.Expr

def place : Frame → Place
  | operand op _ => .operand op
  | left op _ _ => .left op
  | right op _ _ => .right op
  | low .. => .low
  | high .. => .high

def plug : Frame → Expr → Expr
  | operand op t, e => .unary op e t
  | left op r t, e => .binary op e r t
  | right op l t, e => .binary op l e t
  | low s h t u, e => .binary .between s (.binary .and e h t) u
  | high s l t u, e => .binary .between s (.binary .and l e t) u

def before : Frame → String
  | operand op _ =>
    match op.position, op.isKeyword with
    | .after, _ => ""
    | _, true => op.spelling ++ " "
    | _, false => op.spelling
  | left .. => ""
  | right op l _ => leftText op l
  | low s _ _ _ => leftText .between s
  | high s l _ _ =>
    leftText .between s ++ BinaryOperator.between.writeOperand l true l.display ++ " AND "

def after : Frame → String
  | operand op _ =>
    match op.position with
    | .after => " " ++ op.spelling
    | _ => ""
  | left op r _ => rightText op r
  | right .. => ""
  | low _ h _ _ => " AND " ++ BinaryOperator.between.writeOperand h true h.display
  | high .. => ""

def around (f : Frame) (text : String) : String := f.before ++ text ++ f.after

theorem around_inj {f : Frame} {text other : String} :
    f.around text = f.around other ↔ text = other := by
  rw [around, around, String.append_left_inj, String.append_right_inj]

theorem display_plug (f : Frame) (items : List Expr) :
    (f.plug (commaList items)).display = f.around (enclosedIf
      (f.place.encloses (commaList items).display) (commaList items).display) := by
  cases f with
  | operand op t =>
    have groups : ∀ text, op.groups (commaList items) text = (Place.operand op).encloses text :=
      fun text => Bool.false_or _
    simp only [plug, display, UnaryOperator.write, groups, around, place, before, after]
    cases op.position <;> cases op.isKeyword <;> simp [String.append_assoc]
  | left op r t =>
    rw [plug, display_binary_rightText, writeOperand_commaList]
    exact congrArg (· ++ rightText op r) String.empty_append.symm
  | right op l t =>
    have plain : ¬IsRange op (commaList items) := by rintro ⟨_, _, _, _, isAnd⟩; cases isAnd
    rw [plug, display_binary plain, writeRight_eq]
    exact String.append_empty.symm
  | low s h t u =>
    rw [plug, display_range_leftText, writeOperand_commaList]
    simp only [around, before, after, place, Place.encloses, enclosedIf, String.append_assoc]
    rfl
  | high s l t u =>
    rw [plug, display_range_leftText, writeOperand_commaList]
    exact String.append_empty.symm

theorem display_plug_enclosed_iff (f : Frame) (items : List Expr) :
    (f.plug (commaList items)).display = f.around (enclosed (commaList items).display) ↔
      f.place.encloses (commaList items).display = true := by
  rw [display_plug, around_inj, enclosedIf_eq_enclosed_iff]

theorem length_fillAll (write : Leaf → StateM (List String) String) (es : List Expr)
    (texts : List String) : ((fillAll write es).run texts).1.length = es.length := by
  induction es generalizing texts with
  | nil => rfl
  | cons e es ih =>
    rw [fillAll]
    exact congrArg (· + 1) (ih ((e.fill write).run texts).2)

theorem refill_plug (f : Frame) (items : List Expr) (texts : List String) :
    ∃ (g : Frame) (others : List Expr),
      (f.plug (commaList items)).refill texts = g.plug (commaList others) ∧
        g.place = f.place ∧ others.length = items.length := by
  cases f with
  | operand op t => exact ⟨.operand op t, _, rfl, rfl, length_fillAll _ items texts⟩
  | left op r t => exact ⟨.left op _ t, _, rfl, rfl, length_fillAll _ items texts⟩
  | right op l t => exact ⟨.right op _ t, _, rfl, rfl, length_fillAll _ items _⟩
  | low s h t u => exact ⟨.low _ _ t u, _, rfl, rfl, length_fillAll _ items _⟩
  | high s l t u => exact ⟨.high _ _ t u, _, rfl, rfl, length_fillAll _ items _⟩

/-- A bare list makes a list of the whole operation. -/
theorem exists_display_plug {f : Frame} {items : List Expr} (some : items ≠ [])
    (bare : f.place.encloses (commaList items).display = false) :
    ∃ args : List Expr, args.length = items.length ∧
      (f.plug (commaList items)).display = (commaList args).display := by
  have texts : items.map display ≠ [] := by simpa using some
  obtain ⟨parts, length, parted⟩ := Text.exists_intercalate_eq ", " f.before f.after texts
  refine ⟨parts.map (Expr.raw · .undefined), by simpa using length, ?_⟩
  have shown : (parts.map (Expr.raw · .undefined)).map display = parts := by
    simp [Function.comp_def, display]
  rw [display_plug, bare, display_commaList, display_commaList, shown, ← parted]
  rfl

end Frame

namespace Context
open SqlFragment.Expr

theorem refill_of_render {c : Context} {e : Expr} {text : String}
    (rendered : (c.run (render e)).1 = .ok text) : ∃ texts, text = (e.refill texts).display := by
  rw [run_eq_exec, exec_render] at rendered
  generalize exec (e.leaves.mapM writeLeaf) c = x at rendered
  obtain ⟨result, last⟩ := x
  cases result with
  | error error => cases rendered
  | ok texts =>
    cases rendered
    exact ⟨texts, rfl⟩

/-- A list is written between parentheses in the places that enclose it and nowhere else; in the
other places an operation on a list of several items stands for as many items of a call or of a list
around it. The same holds of the text in a dialect, in which every leaf has been replaced. -/
theorem list_operand_enclosed_iff (f : Frame) {items : List Expr} (several : 2 ≤ items.length) :
    ((f.plug (commaList items)).display = f.around (enclosed (commaList items).display) ↔
      f.place.encloses (commaList items).display = true) ∧
    (f.place.encloses (commaList items).display = false →
      ∃ args : List Expr, args.length = items.length ∧ ∀ xs ys : List Expr,
        (commaList (xs ++ f.plug (commaList items) :: ys)).display =
          (commaList (xs ++ (args ++ ys))).display ∧
        ∀ name, (Expr.function name (xs ++ f.plug (commaList items) :: ys)).display =
          (Expr.function name (xs ++ (args ++ ys))).display) ∧
    ∀ (c : Context) (text : String),
      (c.run (render (f.plug (commaList items)))).1 = .ok text →
        ∃ (texts : List String) (g : Frame) (others : List Expr),
          (f.plug (commaList items)).refill texts = g.plug (commaList others) ∧
          g.place = f.place ∧ others.length = items.length ∧
          text = (g.plug (commaList others)).display ∧
          (text = g.around (enclosed (commaList others).display) ↔
            f.place.encloses (commaList others).display = true) := by
  have some : items ≠ [] := by
    rintro rfl
    simp at several
  refine ⟨f.display_plug_enclosed_iff items, ?_, ?_⟩
  · intro bare
    obtain ⟨args, length, shown⟩ := Frame.exists_display_plug some bare
    have parts : args.map display ≠ [] := by
      intro none
      simp only [List.map_eq_nil_iff] at none
      exact some (List.eq_nil_of_length_eq_zero (by simp [← length, none]))
    have joined : ∀ xs ys : List Expr,
        ", ".intercalate ((xs ++ f.plug (commaList items) :: ys).map display) =
          ", ".intercalate ((xs ++ (args ++ ys)).map display) := by
      intro xs ys
      simp only [List.map_append, List.map_cons, shown, display_commaList]
      exact Text.intercalate_splice ", " parts (xs.map display) (ys.map display)
    refine ⟨args, length, fun xs ys => ⟨?_, fun name => ?_⟩⟩
    · rw [display_commaList, display_commaList, joined]
    · simp only [display, displayAll_eq_map, joined]
  · intro c text rendered
    obtain ⟨texts, written⟩ := refill_of_render rendered
    obtain ⟨g, others, filled, place, length⟩ := f.refill_plug items texts
    rw [filled] at written
    refine ⟨texts, g, others, filled, place, length, written, ?_⟩
    rw [written, ← place]
    exact g.display_plug_enclosed_iff others

theorem list_operand_after_sign_and_in_range :
    let signed : Frame := .operand .minus .undefined
    let range : Frame := .low (.column ["a"]) (.value (.integer 3)) .undefined .undefined
    let items : List Expr := [.value (.integer (-1)), .value (.integer 2)]
    2 ≤ items.length ∧ (signed.plug (commaList items)).display = "-(-1, 2)" ∧
      ∃ args : List Expr, args.length = items.length ∧
        (Expr.function "f" [range.plug (commaList items)]).display =
          (Expr.function "f" args).display := by
  intro signed range items
  have enclosed := list_operand_enclosed_iff signed (by decide : 2 ≤ items.length)
  have bare := list_operand_enclosed_iff range (by decide : 2 ≤ items.length)
  obtain ⟨args, length, same⟩ := bare.2.1 rfl
  refine ⟨by decide, (enclosed.1.mpr (by decide)).trans (by decide), args, length, ?_⟩
  simpa using (same [] []).2 "f"

/-- A list given to a comparison is counted among the arguments of the call around it. -/
theorem list_operand_leaks :
    let list : Expr := commaList [.value (.integer 1), .value (.integer 2)]
    let call : Expr := .function "f" [combine .eq (.column ["a"]) list]
    let grammar : Grammar := ⟨Operators.standard, ⟨⟨1970, 1, 1⟩, 0, 0⟩⟩
    grammar.evaluate (.map [("f()", .list [.map [("=", .list [.expr (.column ["a"]),
        .list [.value (.integer 1), .value (.integer 2)]])]])]) = .ok call ∧
      call.display = "f(a = 1, 2)" ∧ call.display ≠ "f(a = (1, 2))" ∧
      (Expr.function "f" [combine .eq (.column ["a"]) (.value (.integer 1)),
        .value (.integer 2)]).display = "f(a = 1, 2)" :=
  ⟨rfl, by decide, by decide, by decide⟩

end Context
end SqlFragment
