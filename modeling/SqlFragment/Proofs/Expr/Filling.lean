import SqlFragment.Proofs.Expr.Pieces

/-
Filling an expression writes its leaves in the order in which they are visited, each of them once,
and then puts their texts into their places, whatever the effects of writing are.
-/
namespace SqlFragment

section
variable {α β γ : Type} {m : Type → Type} [Monad m] [LawfulMonad m]

theorem mapM_bind_congr (f : α → m β) {xs : List α} {g h : List β → m γ}
    (same : ∀ ys : List β, ys.length = xs.length → g ys = h ys) :
    xs.mapM f >>= g = xs.mapM f >>= h := by
  induction xs generalizing g h with
  | nil => simp [same [] rfl]
  | cons x xs ih =>
    simp only [List.mapM_cons, bind_assoc, pure_bind]
    congr 1
    funext y
    exact ih fun ys length => same (y :: ys) (congrArg (· + 1) length)

end

namespace Expr

def nextText : StateM (List String) String := modifyGet fun texts => (texts.headD "", texts.tail)

/-- The expression with texts in the places of its leaves. -/
def refill (e : Expr) (texts : List String) : Expr := ((e.fill fun _ => nextText).run texts).1

theorem mapM_nextText {ls : List Leaf} {texts : List String} (length : texts.length = ls.length) :
    (ls.mapM fun _ => nextText).run texts = (texts, []) := by
  induction ls generalizing texts with
  | nil =>
    rw [List.length_eq_zero_iff.mp length]
    rfl
  | cons l ls ih =>
    cases texts with
    | nil => cases length
    | cons text texts =>
      have first : nextText.run (text :: texts) = (text, texts) := rfl
      simp only [List.mapM_cons, StateT.run_bind, StateT.run_pure, first]
      exact congrArg (fun rest : List String × List String => (text :: rest.1, rest.2))
        (ih (Nat.succ.inj length))

/-- A procedure that writes the leaves in their order and puts the texts together. What it gives
holds the texts, each at its place. -/
def Writes {α : Type} (ls : List Leaf)
    (procedure : ∀ (m : Type → Type) [Monad m], (Leaf → m String) → m α)
    (held : α → List String) : Prop :=
  ∃ put : List String → α,
    (∀ (m : Type → Type) [Monad m] [LawfulMonad m] (write : Leaf → m String),
      procedure m write = put <$> ls.mapM write) ∧
    ∀ texts : List String, texts.length = ls.length → texts.Sublist (held (put texts))

section
variable {α β γ : Type} {ls ks : List Leaf} {held : α → List String} {also : β → List String}
  {all : γ → List String}
  {first : ∀ (m : Type → Type) [Monad m], (Leaf → m String) → m α}
  {second : ∀ (m : Type → Type) [Monad m], (Leaf → m String) → m β}

theorem writes_pure (x : α) : Writes [] (fun _ _ _ => pure x) held := by
  refine ⟨fun _ => x, ?_, ?_⟩
  · intro m _ _ write
    simp
  · intro texts length
    rw [List.length_eq_zero_iff.mp length]
    exact List.nil_sublist _

theorem writes_leaf (l : Leaf) : Writes [l] (fun _ _ write => write l) fun text => [text] := by
  refine ⟨fun texts => texts.headD "", ?_, ?_⟩
  · intro m _ _ write
    simp
  · intro texts length
    obtain ⟨text, rfl⟩ := List.length_eq_one_iff.mp length
    exact List.Sublist.refl _

theorem Writes.congr (writes : Writes ls first held)
    {same : ∀ (m : Type → Type) [Monad m], (Leaf → m String) → m α}
    (eq : ∀ (m : Type → Type) [Monad m] [LawfulMonad m] write, same m write = first m write) :
    Writes ls same held := by
  obtain ⟨put, puts, placed⟩ := writes
  exact ⟨put, fun m _ _ write => (eq m write).trans (puts m write), placed⟩

theorem Writes.map (writes : Writes ls first held) (f : α → β)
    (kept : ∀ x, also (f x) = held x) :
    Writes ls (fun m _ write => do let x ← first m write; return f x) also := by
  obtain ⟨put, same, placed⟩ := writes
  refine ⟨fun texts => f (put texts), ?_, ?_⟩
  · intro m _ _ write
    simp [same]
  · intro texts length
    rw [kept]
    exact placed texts length

theorem Writes.both (writes : Writes ls first held) (next : Writes ks second also)
    (f : α → β → γ) (kept : ∀ x y, all (f x y) = held x ++ also y) :
    Writes (ls ++ ks)
      (fun m _ write => do let x ← first m write; let y ← second m write; return f x y) all := by
  obtain ⟨put, same, placed⟩ := writes
  obtain ⟨putNext, sameNext, placedNext⟩ := next
  refine ⟨fun texts => f (put (texts.take ls.length)) (putNext (texts.drop ls.length)), ?_, ?_⟩
  · intro m _ _ write
    simp only [same, sameNext, List.mapM_append, map_eq_pure_bind, bind_assoc, pure_bind]
    refine mapM_bind_congr write fun xs length => ?_
    simp [← length]
  · intro texts length
    have total : texts.length = ls.length + ks.length := by rw [length, List.length_append]
    have front := placed (texts.take ls.length) (by rw [List.length_take]; omega)
    have back := placedNext (texts.drop ls.length) (by rw [List.length_drop]; omega)
    have joined := front.append back
    rw [List.take_append_drop] at joined
    rw [kept]
    exact joined

end

theorem leaves_eq_children {e : Expr} (node : e.leaf? = none) :
    e.leaves = e.children.flatMap leaves :=
  gather_of_node node

theorem leaves_binary (op : BinaryOperator) (l r : Expr) (t : DataType) :
    leaves (.binary op l r t) = l.leaves ++ r.leaves :=
  gather_binary (f := leaf?) rfl

theorem leaves_case (s : Option Expr) (arms : List (Expr × Expr)) (o : Option Expr) :
    leaves (.case s arms o) = s.toList.flatMap leaves ++
      (arms.flatMap fun arm => arm.1.leaves ++ arm.2.leaves) ++ o.toList.flatMap leaves :=
  gather_case (f := leaf?) rfl

def armRaws (arm : Expr × Expr) : List String := arm.1.raws ++ arm.2.raws

/-- Filling an expression is such a procedure. -/
abbrev Fills (e : Expr) : Prop := Writes e.leaves (fun _ _ write => e.fill write) raws

theorem writes_fillAll {es : List Expr} (each : ∀ e ∈ es, e.Fills) :
    Writes (es.flatMap leaves) (fun _ _ write => fillAll write es) (·.flatMap raws) := by
  induction es with
  | nil =>
    simp only [fillAll]
    exact writes_pure []
  | cons e es ih =>
    simp only [fillAll, List.flatMap_cons]
    refine (each e List.mem_cons_self).both (ih fun x mem => each x (List.mem_cons_of_mem e mem))
      List.cons fun _ _ => rfl

theorem writes_fillOption {o : Option Expr} (each : ∀ e ∈ o, e.Fills) :
    Writes (o.toList.flatMap leaves) (fun _ _ write => fillOption write o)
      (·.toList.flatMap raws) := by
  cases o with
  | none =>
    simp only [fillOption]
    exact writes_pure none
  | some e =>
    simp only [fillOption, Option.toList_some, List.flatMap_singleton]
    exact (each e rfl).map some fun x => List.flatMap_singleton raws x

theorem writes_fillArms {arms : List (Expr × Expr)}
    (each : ∀ arm ∈ arms, arm.1.Fills ∧ arm.2.Fills) :
    Writes (arms.flatMap fun arm => arm.1.leaves ++ arm.2.leaves)
      (fun _ _ write => fillArms write arms) (·.flatMap armRaws) := by
  induction arms with
  | nil =>
    simp only [fillArms]
    exact writes_pure []
  | cons arm arms ih =>
    obtain ⟨condition, result⟩ := each arm List.mem_cons_self
    have rest := ih fun x mem => each x (List.mem_cons_of_mem arm mem)
    have pair : Writes _ _ armRaws := condition.both result Prod.mk fun _ _ => rfl
    have joined : Writes _ _ (List.flatMap armRaws) := pair.both rest List.cons fun _ _ => rfl
    refine joined.congr fun m _ _ write => ?_
    simp [fillArms]

theorem fills_binary {op : BinaryOperator} {l r : Expr} {t : DataType} (left : l.Fills)
    (right : r.Fills) : Fills (.binary op l r t) := by
  simp only [Fills, leaves_binary, fill]
  exact left.both right (Expr.binary op · · t) fun x y => raws_binary op x y t

theorem fills_case {s o : Option Expr} {arms : List (Expr × Expr)} (subject : ∀ e ∈ s, e.Fills)
    (each : ∀ arm ∈ arms, arm.1.Fills ∧ arm.2.Fills) (branch : ∀ e ∈ o, e.Fills) :
    Fills (.case s arms o) := by
  have front : Writes _ _ fun x : Option Expr × List (Expr × Expr) =>
      x.1.toList.flatMap raws ++ x.2.flatMap armRaws :=
    (writes_fillOption subject).both (writes_fillArms each) Prod.mk fun _ _ => rfl
  have whole : Writes _ _ raws := front.both (writes_fillOption branch)
    (fun x y => Expr.case x.1 x.2 y) fun x y => raws_case x.1 x.2 y
  rw [Fills, leaves_case]
  refine whole.congr fun m _ _ write => ?_
  simp [fill]

theorem fills (e : Expr) : e.Fills := by
  induction e using inductionOnParts with
  | literal v t =>
    simp only [Fills, fill]
    exact (writes_leaf (.literal v t)).map (Expr.raw · t) fun _ => rfl
  | parameter n =>
    simp only [Fills, fill]
    exact (writes_leaf (.parameter n)).map (Expr.raw · .undefined) fun _ => rfl
  | column p =>
    simp only [Fills, fill]
    exact (writes_leaf (.column p)).map (Expr.raw · .undefined) fun _ => rfl
  | table p =>
    simp only [Fills, fill]
    exact (writes_leaf (.table p)).map (Expr.raw · .undefined) fun _ => rfl
  | raw s t =>
    simp only [Fills, fill]
    exact writes_pure (Expr.raw s t)
  | function n args ih =>
    rw [Fills, leaves_eq_children rfl]
    simp only [fill]
    exact (writes_fillAll ih).map (Expr.function n) fun _ => raws_eq_children rfl
  | list items s ih =>
    rw [Fills, leaves_eq_children rfl]
    simp only [fill]
    exact (writes_fillAll ih).map (Expr.list · s) fun _ => raws_eq_children rfl
  | parenthesis e ih =>
    rw [Fills, leaves_eq_children rfl, children, List.flatMap_singleton]
    simp only [fill]
    exact ih.map Expr.parenthesis raws_parenthesis
  | unary op e t ih =>
    rw [Fills, leaves_eq_children rfl, children, List.flatMap_singleton]
    simp only [fill]
    exact ih.map (Expr.unary op · t) fun x => raws_unary op x t
  | range l low high t u hl hlow hhigh => exact fills_binary hl (fills_binary hlow hhigh)
  | binary op l r t plain hl hr => exact fills_binary hl hr
  | case s arms o hs harms ho => exact fills_case hs harms ho

theorem eq_refill {e : Expr} {put : List String → Expr}
    (same : ∀ (m : Type → Type) [Monad m] [LawfulMonad m] (write : Leaf → m String),
      e.fill write = put <$> e.leaves.mapM write)
    {texts : List String} (length : texts.length = e.leaves.length) :
    put texts = e.refill texts := by
  have run := congrArg (fun a => (a.run texts).1) (same (StateM (List String)) fun _ => nextText)
  simp only [StateT.run_map, mapM_nextText length] at run
  exact run.symm

/-- Filling an expression is writing its leaves and putting the texts into their places. -/
theorem fill_eq_refill {m : Type → Type} [Monad m] [LawfulMonad m] (e : Expr)
    (write : Leaf → m String) : e.fill write = e.refill <$> e.leaves.mapM write := by
  obtain ⟨put, same, _⟩ := e.fills
  refine (same m write).trans ?_
  rw [map_eq_pure_bind, map_eq_pure_bind]
  exact mapM_bind_congr write fun texts length => congrArg pure (eq_refill same length)

theorem stand_refill {e : Expr} {texts : List String} (length : texts.length = e.leaves.length) :
    Stand texts (e.refill texts).display := by
  obtain ⟨put, same, placed⟩ := e.fills
  have sub := placed texts length
  rw [eq_refill same length] at sub
  exact (stand_raws _).sublist sub

end Expr
end SqlFragment
