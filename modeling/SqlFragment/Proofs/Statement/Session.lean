import SqlFragment.Proofs.Statement.Effects

/-
What one step of a session does to the context: the writer stays the same, and a step that fails has
only looked something up. Rendering that keeps its parameters is the one exception.
-/
namespace SqlFragment

namespace Step

/-- A step that leaves no parameters behind when it fails. -/
def isAtomic : Step → Bool
  | .renderKeeping _ => false
  | _ => true

/-- A step that looks something up or writes something that is no parameter. -/
def isReading : Step → Bool
  | .find _ _ | .invoke _ _ | .literal _ _ | .columnType _ | .columnDefinition _ => true
  | _ => false

end Step

namespace Context

theorem step_eq_exec (c : Context) (s : Step) : c.step s = exec (act s) c := rfl

theorem exec_compile (input : Input) (c : Context) : exec (compile input) c =
    match c.grammar.evaluate input with
    | .ok e => exec (render e) c
    | .error e => (.error (.evaluation e), c) := by
  rw [compile, exec_bind, evaluate, exec_get_bind]
  cases c.grammar.evaluate input <;> rfl

theorem exec_setDefault (name : String) (e : Expr) (c : Context) : exec (setDefault name e) c =
    match c.parameters.setDefault? name e with
    | some parameters => (.ok ⟨⟩, { c with parameters })
    | none => (.error (.unusedParameter name), c) := by
  rw [setDefault, exec_get_bind]
  cases c.parameters.setDefault? name e <;> rfl

theorem exec_pop (c : Context) : exec pop c =
    match c.resolver.pop? with
    | some resolver => (.ok ⟨⟩, { c with resolver })
    | none => (.error .firstScope, c) := by
  rw [pop, exec_get_bind]
  cases c.resolver.pop? <;> rfl

theorem looking_act {s : Step} (reading : s.isReading = true) : Looking (act s) := by
  cases s with
  | find kind path => exact (looking_find kind path).map _
  | invoke name arguments => exact (looking_invoke name arguments).map _
  | literal v t => exact (looking_literal v t).map _
  | columnType t => exact (looking_columnType t).map _
  | columnDefinition column => exact (looking_columnDefinition column).map _
  | _ => cases reading

theorem writer_render (e : Expr) (c : Context) : (exec (render e) c).2.writer = c.writer := by
  have later := later_writeLeaves e.leaves c
  rw [exec_render]
  generalize exec (e.leaves.mapM writeLeaf) c = x at later
  obtain ⟨result, after⟩ := x
  cases result <;> exact later.writer

theorem writer_compile (input : Input) (c : Context) :
    (exec (compile input) c).2.writer = c.writer := by
  rw [exec_compile]
  split
  · exact writer_render _ c
  · rfl

theorem writer_step (c : Context) (s : Step) : (c.step s).2.writer = c.writer := by
  rw [step_eq_exec]
  cases s with
  | find _ _ | invoke _ _ | literal _ _ | columnType _ | columnDefinition _ =>
    exact (looking_act rfl c).writer
  | reset | setAlias _ _ | push _ => rfl
  | render e =>
    rw [act, exec_map]
    exact writer_render e c
  | renderKeeping e =>
    rw [act, exec_map, renderKeeping_eq, exec_map]
    exact (later_writeLeaves e.leaves c).writer
  | compile input =>
    rw [act, exec_map]
    exact writer_compile input c
  | parameter name =>
    obtain ⟨token, parameters, _, run⟩ := exec_parameter name c
    rw [act, exec_map, run]
  | setDefault name e =>
    rw [act, exec_seqRight, exec_setDefault]
    cases c.parameters.setDefault? name e <;> rfl
  | pop =>
    rw [act, exec_seqRight, exec_pop]
    cases c.resolver.pop? <;> rfl

theorem writer_runAll (c : Context) (steps : List Step) : (c.runAll steps).2.writer = c.writer := by
  induction steps generalizing c with
  | nil => rfl
  | cons s steps ih => exact (ih (c.step s).2).trans (c.writer_step s)

/-- An action that has only looked something up when it fails. -/
def Traceless {α : Type} (a : Action α) : Prop :=
  ∀ c error, (exec a c).1 = .error error → Looked c (exec a c).2

section
variable {α β : Type} {a : Action α}

theorem Looking.traceless (looking : Looking a) : Traceless a := fun c _ _ => looking c

theorem Traceless.map (traceless : Traceless a) (f : α → β) : Traceless (f <$> a) := by
  intro c error fails
  rw [exec_map] at fails ⊢
  cases result : (exec a c).1 with
  | error e => exact traceless c e result
  | ok x =>
    rw [result] at fails
    cases fails

theorem Traceless.answered (traceless : Traceless a) (x : β) : Traceless (a *> pure x) := by
  rw [seqRight_eq_bind, bind_pure_comp]
  exact traceless.map fun _ => x

theorem traceless_of_ok (succeeds : ∀ c, ∃ x, (exec a c).1 = .ok x) : Traceless a := by
  intro c error fails
  obtain ⟨x, ok⟩ := succeeds c
  cases ok.symm.trans fails

theorem traceless_render (e : Expr) : Traceless (render e) := fun _ _ => looked_of_render_fails

theorem traceless_compile (input : Input) : Traceless (compile input) := by
  intro c error fails
  rw [exec_compile] at fails ⊢
  cases read : c.grammar.evaluate input with
  | error e => exact .refl c
  | ok e =>
    rw [read] at fails
    exact traceless_render e c error fails

theorem traceless_parameter (name : String) : Traceless (parameter name) := by
  refine traceless_of_ok fun c => ?_
  obtain ⟨token, parameters, _, run⟩ := exec_parameter name c
  exact ⟨token, congrArg Prod.fst run⟩

theorem traceless_setDefault (name : String) (e : Expr) : Traceless (setDefault name e) := by
  intro c error fails
  rw [exec_setDefault] at fails ⊢
  cases held : c.parameters.setDefault? name e with
  | none => exact .refl c
  | some parameters =>
    rw [held] at fails
    cases fails

theorem traceless_pop : Traceless pop := by
  intro c error fails
  rw [exec_pop] at fails ⊢
  cases popped : c.resolver.pop? with
  | none => exact .refl c
  | some resolver =>
    rw [popped] at fails
    cases fails

end

theorem traceless_act {s : Step} (atomic : s.isAtomic = true) : Traceless (act s) := by
  cases s with
  | renderKeeping e => cases atomic
  | find _ _ | invoke _ _ | literal _ _ | columnType _ | columnDefinition _ =>
    exact (looking_act rfl).traceless
  | render e => exact (traceless_render e).map _
  | compile input => exact (traceless_compile input).map _
  | parameter name => exact (traceless_parameter name).map _
  | setDefault name e => exact (traceless_setDefault name e).answered _
  | pop => exact traceless_pop.answered _
  | reset | setAlias _ _ | push _ => exact traceless_of_ok fun _ => ⟨_, rfl⟩

theorem looked_of_step_fails {c : Context} {s : Step} {error : StatementError}
    (atomic : s.isAtomic = true) (fails : (c.step s).1 = .error error) : Looked c (c.step s).2 :=
  traceless_act atomic c error fails

end Context
end SqlFragment
