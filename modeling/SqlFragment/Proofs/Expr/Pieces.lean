import SqlFragment.Proofs.Expr.Enclosure

/-
Pieces of a text: the texts that an expression holds as they stand are written one after the other,
in the order in which the parts of the expression are visited, and each of them once.
-/
namespace SqlFragment

/-- The pieces stand in the text, one after the other and apart from each other. -/
def Stand : List String → String → Prop
  | [], _ => True
  | piece :: pieces, text => ∃ before after, text = before ++ piece ++ after ∧ Stand pieces after

section
variable {ps qs : List String} {a b : String}

theorem stand_singleton (a : String) : Stand [a] a := ⟨"", "", by simp, trivial⟩

theorem Stand.after (stand : Stand ps b) (a : String) : Stand ps (a ++ b) := by
  cases ps with
  | nil => trivial
  | cons p ps =>
    obtain ⟨before, after, rfl, rest⟩ := stand
    exact ⟨a ++ before, after, by simp only [String.append_assoc], rest⟩

theorem Stand.append (first : Stand ps a) (second : Stand qs b) : Stand (ps ++ qs) (a ++ b) := by
  induction ps generalizing a with
  | nil => exact second.after a
  | cons p ps ih =>
    obtain ⟨before, after, rfl, rest⟩ := first
    exact ⟨before, after ++ b, by simp only [String.append_assoc], ih rest⟩

theorem Stand.before (stand : Stand ps a) (b : String) : Stand ps (a ++ b) := by
  have both : Stand (ps ++ []) (a ++ b) := stand.append trivial
  rwa [List.append_nil] at both

theorem Stand.sublist (stand : Stand qs a) (sub : ps.Sublist qs) : Stand ps a := by
  induction sub generalizing a with
  | slnil => trivial
  | cons q _ ih =>
    obtain ⟨before, after, rfl, rest⟩ := stand
    exact (ih rest).after _
  | cons_cons q _ ih =>
    obtain ⟨before, after, rfl, rest⟩ := stand
    exact ⟨before, after, rfl, ih rest⟩

theorem Stand.enclosed (stand : Stand ps a) : Stand ps (enclosed a) := (stand.after "(").before ")"

theorem Stand.enclosedIf (stand : Stand ps a) (needed : Bool) : Stand ps (enclosedIf needed a) := by
  cases needed with
  | false => exact stand
  | true => exact stand.enclosed

end

theorem stand_intercalate {α : Type} {pieces : α → List String} {text : α → String} {xs : List α}
    (each : ∀ x ∈ xs, Stand (pieces x) (text x)) (separator : String) :
    Stand (xs.flatMap pieces) (separator.intercalate (xs.map text)) := by
  induction xs with
  | nil => trivial
  | cons x xs ih =>
    have first := each x List.mem_cons_self
    have rest := ih fun y mem => each y (List.mem_cons_of_mem x mem)
    cases xs with
    | nil => simpa using first
    | cons y ys =>
      rw [List.flatMap_cons, List.map_cons, List.map_cons, String.intercalate_cons_cons]
      exact (first.before separator).append rest

namespace Expr

/-- An expression is visited before its parts, and these in their order. -/
theorem visit_eq_children (e : Expr) : e.visit = e :: e.children.flatMap visit := by
  cases e with
  | function n args => rw [visit, visitAll_eq_flatMap, children]
  | list items s => rw [visit, visitAll_eq_flatMap, children]
  | case s arms o =>
    simp only [visit, visitArms_eq_flatMap, visitOption_eq_flatMap, children, List.flatMap_append,
      List.flatMap_assoc, List.flatMap_cons, List.flatMap_nil, List.append_nil]
  | _ => simp [visit, children]

def gather {β : Type} (f : Expr → Option β) (e : Expr) : List β := e.visit.filterMap f

theorem gather_eq_children {β : Type} (f : Expr → Option β) (e : Expr) :
    e.gather f = (f e).toList ++ e.children.flatMap (gather f) := by
  have parts : (e.children.flatMap visit).filterMap f = e.children.flatMap (gather f) :=
    List.filterMap_flatMap
  rw [gather, visit_eq_children, List.filterMap_cons, parts]
  cases f e <;> rfl

section
variable {β : Type} {f : Expr → Option β}

theorem gather_of_node {e : Expr} (node : f e = none) :
    e.gather f = e.children.flatMap (gather f) := by
  rw [gather_eq_children, node]
  rfl

theorem gather_binary {op : BinaryOperator} {l r : Expr} {t : DataType}
    (node : f (.binary op l r t) = none) :
    gather f (.binary op l r t) = l.gather f ++ r.gather f := by
  rw [gather_of_node node]
  simp [children]

theorem gather_case {s : Option Expr} {arms : List (Expr × Expr)} {o : Option Expr}
    (node : f (.case s arms o) = none) :
    gather f (.case s arms o) = s.toList.flatMap (gather f) ++
      (arms.flatMap fun arm => arm.1.gather f ++ arm.2.gather f) ++
      o.toList.flatMap (gather f) := by
  rw [gather_of_node node]
  simp [children, List.flatMap_assoc]

end

def raw? : Expr → Option String
  | .raw text _ => some text
  | _ => none

def raws (e : Expr) : List String := e.gather raw?

theorem raws_eq_children {e : Expr} (node : e.raw? = none) :
    e.raws = e.children.flatMap raws :=
  gather_of_node node

theorem raws_parenthesis (e : Expr) : raws (.parenthesis e) = e.raws := by
  rw [raws_eq_children rfl]
  simp [children]

theorem raws_unary (op : UnaryOperator) (e : Expr) (t : DataType) :
    raws (.unary op e t) = e.raws := by
  rw [raws_eq_children rfl]
  simp [children]

theorem raws_binary (op : BinaryOperator) (l r : Expr) (t : DataType) :
    raws (.binary op l r t) = l.raws ++ r.raws :=
  gather_binary rfl

theorem raws_case (s : Option Expr) (arms : List (Expr × Expr)) (o : Option Expr) :
    raws (.case s arms o) = s.toList.flatMap raws ++
      (arms.flatMap fun arm => arm.1.raws ++ arm.2.raws) ++ o.toList.flatMap raws :=
  gather_case rfl

theorem stand_write (op : UnaryOperator) (e : Expr) {ps : List String} {text : String}
    (stand : Stand ps text) : Stand ps (op.write e text) := by
  have inner := stand.enclosedIf (op.groups e text)
  unfold UnaryOperator.write
  split
  · simp only [String.append_assoc]
    exact inner.before _
  · exact inner.after _
  · exact inner.after _

theorem stand_writeOperand (op : BinaryOperator) (e : Expr) (right : Bool) {ps : List String}
    {text : String} (stand : Stand ps text) : Stand ps (op.writeOperand e right text) :=
  stand.enclosedIf _

theorem stand_writeRight (op : BinaryOperator) (e : Expr) {ps : List String}
    {text : String} (stand : Stand ps text) : Stand ps (op.writeRight e text) := by
  unfold BinaryOperator.writeRight
  split
  · exact (stand_writeOperand op _ true stand).enclosedIf _
  · exact stand_writeOperand op e true stand

section
variable (s : Option Expr) (arms : List (Expr × Expr)) (o : Option Expr)

/-- The words of a case distinction with the texts that each of them holds. -/
def caseWords : List (List String × String) :=
  ([], "CASE") :: s.toList.map (fun e => (e.raws, e.display)) ++
    arms.map (fun arm => (arm.1.raws ++ arm.2.raws,
      "WHEN " ++ arm.1.display ++ " THEN " ++ arm.2.display)) ++
    o.toList.map (fun e => (e.raws, "ELSE " ++ e.display)) ++ [([], "END")]

theorem display_caseWords :
    display (.case s arms o) = " ".intercalate ((caseWords s arms o).map Prod.snd) := by
  simp [caseWords, display, displayOption_eq_map, displayArms_eq_map, Function.comp_def]

theorem raws_caseWords : raws (.case s arms o) = (caseWords s arms o).flatMap Prod.fst := by
  rw [raws_case]
  simp [caseWords, List.flatMap_map]

end

theorem stand_case {s o : Option Expr} {arms : List (Expr × Expr)}
    (subject : ∀ e ∈ s, Stand e.raws e.display)
    (each : ∀ arm ∈ arms, Stand arm.1.raws arm.1.display ∧ Stand arm.2.raws arm.2.display)
    (branch : ∀ e ∈ o, Stand e.raws e.display) :
    Stand (raws (.case s arms o)) (display (.case s arms o)) := by
  rw [raws_caseWords, display_caseWords]
  refine stand_intercalate ?_ " "
  intro word mem
  simp only [caseWords, List.cons_append, List.mem_cons, List.mem_append, List.mem_map,
    Option.mem_toList, List.not_mem_nil, or_false] at mem
  rcases mem with rfl | ((⟨e, mem, rfl⟩ | ⟨arm, mem, rfl⟩) | ⟨e, mem, rfl⟩) | rfl
  · trivial
  · exact subject e mem
  · exact (((each arm mem).1.after "WHEN ").before " THEN ").append (each arm mem).2
  · exact (branch e mem).after "ELSE "
  · trivial

/-- What an expression holds as it stands is written in the order of its parts. -/
theorem stand_raws (e : Expr) : Stand e.raws e.display := by
  induction e using inductionOnParts with
  | literal | parameter | column | table => trivial
  | raw s t => exact stand_singleton s
  | function n args ih =>
    rw [raws_eq_children rfl, display, displayAll_eq_map]
    exact (stand_intercalate ih ", ").enclosed.after n
  | list items s ih =>
    rw [raws_eq_children rfl, display, displayAll_eq_map]
    exact stand_intercalate ih s
  | parenthesis e ih =>
    rw [raws_parenthesis, display]
    exact ih.enclosed
  | unary op e t ih =>
    rw [raws_unary, display]
    exact stand_write op e ih
  | range l low high t u hl hlow hhigh =>
    rw [raws_binary, raws_binary, display]
    exact ((stand_writeOperand _ l false hl).before " BETWEEN ").append
      (((stand_writeOperand _ low true hlow).before " AND ").append
        (stand_writeOperand _ high true hhigh))
  | binary op l r t plain hl hr =>
    rw [raws_binary, display_binary plain]
    exact ((((stand_writeOperand op l false hl).before " ").before op.spelling).before " ").append
      (stand_writeRight op r hr)
  | case s arms o hs harms ho => exact stand_case hs harms ho

end Expr
end SqlFragment
