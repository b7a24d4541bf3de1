import SqlFragment.Proofs.Statement.Simulation

/-
One session under two dialects. Whatever the dialects and the escapers of two contexts are, a step
succeeds in both or fails in both with the same error, and the parameters differ in nothing but the
names that they are written with.
-/
namespace SqlFragment.Context

/-- Contexts that differ in their writers and in what these write. -/
structure SameRecord (g : Grammar) (c d : Context) : Prop where
  resolver : c.resolver = d.resolver
  grammars : c.grammar = g ∧ d.grammar = g
  parameters : c.parameters.unnamed = d.parameters.unnamed

theorem related_parameter_unnamed (g : Grammar) (name : String) :
    Related (SameRecord g) (EqualIf False) (parameter name) (parameter name) := by
  intro c d related
  obtain ⟨token, p, occurs, run⟩ := exec_parameter name c
  obtain ⟨other, q, occursToo, runToo⟩ := exec_parameter name d
  rw [run, runToo]
  refine .ok (fun never => never.elim) ⟨related.resolver, related.grammars, ?_⟩
  rw [Parameters.unnamed_occur occurs, Parameters.unnamed_occur occursToo, related.parameters]

theorem related_setDefault_unnamed (g : Grammar) (name : String) (e : Expr) :
    Related (SameRecord g) (fun _ _ => True) (setDefault name e) (setDefault name e) := by
  intro c d related
  have same : (c.parameters.setDefault? name e).map Parameters.unnamed =
      (d.parameters.setDefault? name e).map Parameters.unnamed := by
    rw [Parameters.unnamed_setDefault, Parameters.unnamed_setDefault, related.parameters]
  rw [exec_setDefault, exec_setDefault]
  rcases both_of_map_eq same with ⟨first, second⟩ | ⟨p, q, first, second, unnamed⟩
  · rw [first, second]
    exact .error related
  · rw [first, second]
    exact .ok trivial ⟨related.resolver, related.grammars, unnamed⟩

theorem related_pop_same (g : Grammar) : Related (SameRecord g) (fun _ _ => True) pop pop := by
  intro c d related
  rw [exec_pop, exec_pop, related.resolver]
  cases d.resolver.pop? with
  | none => exact .error related
  | some resolver => exact .ok trivial ⟨rfl, related.grammars, related.parameters⟩

theorem simulation_sameRecord (g : Grammar) :
    Simulation (SameRecord g) (fun _ => True) False g where
  writer _ never := never.elim
  alias? related := by rw [related.resolver]
  answer kind path related _ := by rw [related.resolver]
  looked kind path related _ := ⟨by rw [related.resolver], related.grammars, related.parameters⟩
  parsed _ := trivial
  grammar related := related.grammars
  parameter := related_parameter_unnamed g
  setDefault := related_setDefault_unnamed g
  restore before after := ⟨after.resolver, after.grammars, before.parameters⟩
  reset related := ⟨related.resolver, related.grammars, rfl⟩
  setAlias name a related := ⟨by rw [related.resolver], related.grammars, related.parameters⟩
  push pivot related := ⟨by rw [related.resolver], related.grammars, related.parameters⟩
  pop := related_pop_same g

/-- A session goes the same way under any two writers: the same steps fail, with the same errors, and
after each of them the parameters are the same but for the names that they are written with. -/
theorem runAll_agrees_across_writers (writer other : Writer) (resolver : Resolver)
    (grammar : Grammar) (steps : List Step) :
    let c : Context := { writer, resolver, grammar }
    let d : Context := { writer := other, resolver, grammar }
    (c.runAll steps).1.map (fun answer => answer.map fun _ => ()) =
        (d.runAll steps).1.map (fun answer => answer.map fun _ => ()) ∧
      ∀ n, (c.runAll (steps.take n)).2.parameters.unnamed =
        (d.runAll (steps.take n)).2.parameters.unnamed := by
  intro c d
  have related : SameRecord grammar c d := ⟨rfl, ⟨rfl, rfl⟩, rfl⟩
  have searched : ∀ s : Step, s.Searches (fun _ => True) grammar := by
    intro s
    cases s with
    | compile _ => exact fun _ _ _ _ => trivial
    | render _ | renderKeeping _ => exact fun _ _ => trivial
    | _ => trivial
  have agree := fun steps : List Step =>
    agree_runAll (simulation_sameRecord grammar) related steps fun s _ => searched s
  exact ⟨(agree steps).1, fun n => (agree (steps.take n)).2.parameters⟩

end SqlFragment.Context
