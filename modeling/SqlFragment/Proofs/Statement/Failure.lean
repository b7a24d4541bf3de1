import SqlFragment.Proofs.Resolver.Transparency
import SqlFragment.Proofs.Statement.Simulation
import SqlFragment.Statement.Basic

/-
Steps that fail leave no trace. What a failed step leaves behind is in the caches, and these never
show in an answer as long as no segment of a path has a dot in it.
-/
namespace SqlFragment

theorem Resolver.uncached_setAlias (r : Resolver) (name : String) (a : Alias) :
    (r.setAlias name a).uncached = r.uncached.setAlias name a := rfl

theorem Resolver.uncached_push (r : Resolver) (pivot : Element) :
    (r.push pivot).uncached = r.uncached.push pivot := rfl

theorem Resolver.uncached_pop? (r : Resolver) :
    r.pop?.map uncached = r.uncached.pop? := by
  obtain ⟨schema, scope, outer⟩ := r
  cases outer <;> rfl

namespace Context

/-- Contexts that differ in what their caches hold. -/
structure SameButCaches (g : Grammar) (c d : Context) : Prop where
  writer : c.writer = d.writer
  grammars : c.grammar = g ∧ d.grammar = g
  parameters : c.parameters = d.parameters
  uncached : c.resolver.uncached = d.resolver.uncached
  faithful : c.resolver.Faithful ∧ d.resolver.Faithful

section
variable {g : Grammar} {c d e : Context}

theorem SameButCaches.answer_eq (same : SameButCaches g c d) (kind : ElementKind) {path : Path}
    (plain : path.Plain) : (c.resolver.find kind path).1 = (d.resolver.find kind path).1 := by
  rw [Resolver.find_uncached (same.faithful.1 _ List.mem_cons_self) plain,
    Resolver.find_uncached (same.faithful.2 _ List.mem_cons_self) plain, same.uncached]

theorem SameButCaches.looked (same : SameButCaches g c d) (looked : Looked c e) :
    SameButCaches g e d where
  writer := looked.writer.trans same.writer
  grammars := ⟨looked.grammar.trans same.grammars.1, same.grammars.2⟩
  parameters := looked.parameters.trans same.parameters
  uncached := looked.resolver.uncached_eq.trans same.uncached
  faithful := ⟨same.faithful.1.grows looked.resolver, same.faithful.2⟩

theorem SameButCaches.symm (same : SameButCaches g c d) : SameButCaches g d c where
  writer := same.writer.symm
  grammars := same.grammars.symm
  parameters := same.parameters.symm
  uncached := same.uncached.symm
  faithful := same.faithful.symm

theorem related_parameter_same (g : Grammar) (name : String) :
    Related (SameButCaches g) (EqualIf True) (parameter name) (parameter name) := by
  intro c d same
  obtain ⟨token, p, occurs, run⟩ := exec_parameter name c
  obtain ⟨other, q, occursToo, runToo⟩ := exec_parameter name d
  rw [same.writer, same.parameters, occursToo] at occurs
  cases occurs
  rw [run, runToo]
  exact .ok (fun _ => rfl) ⟨same.writer, same.grammars, rfl, same.uncached, same.faithful⟩

theorem related_setDefault_same (g : Grammar) (name : String) (e : Expr) :
    Related (SameButCaches g) (fun _ _ => True) (setDefault name e) (setDefault name e) := by
  intro c d same
  rw [exec_setDefault, exec_setDefault, same.parameters]
  cases d.parameters.setDefault? name e with
  | none => exact .error same
  | some p =>
    exact .ok trivial ⟨same.writer, same.grammars, rfl, same.uncached, same.faithful⟩

theorem related_pop_uncached (g : Grammar) :
    Related (SameButCaches g) (fun _ _ => True) pop pop := by
  intro c d same
  have popped : c.resolver.pop?.map Resolver.uncached = d.resolver.pop?.map Resolver.uncached := by
    rw [Resolver.uncached_pop?, Resolver.uncached_pop?, same.uncached]
  have first := same.faithful.1.move .pop
  have second := same.faithful.2.move .pop
  unfold Resolver.move at first second
  rw [exec_pop, exec_pop]
  rcases both_of_map_eq popped with ⟨left, right⟩ | ⟨r, s, left, right, uncached⟩
  · rw [left, right]
    exact .error same
  · rw [left] at first
    rw [right] at second
    rw [left, right]
    exact .ok trivial ⟨same.writer, same.grammars, same.parameters, uncached, first, second⟩

theorem simulation_sameButCaches (g : Grammar) :
    Simulation (SameButCaches g) Path.Plain True g where
  writer same _ := same.writer
  alias? same := by
    have scopes := congrArg (fun r : Resolver => r.scope.alias?) same.uncached
    exact scopes
  answer kind path same plain := same.answer_eq kind plain
  looked kind path same _ :=
    ((same.looked (looked_find _ kind path)).symm.looked (looked_find _ kind path)).symm
  parsed := Path.plain_parse
  grammar same := same.grammars
  parameter := related_parameter_same g
  setDefault := related_setDefault_same g
  restore before after :=
    ⟨after.writer, after.grammars, before.parameters, after.uncached, after.faithful⟩
  reset same := ⟨same.writer, same.grammars, rfl, same.uncached, same.faithful⟩
  setAlias name a same := by
    refine ⟨same.writer, same.grammars, same.parameters, ?_, ?_, ?_⟩
    · rw [Resolver.uncached_setAlias, Resolver.uncached_setAlias, same.uncached]
    · exact same.faithful.1.move (.setAlias name a)
    · exact same.faithful.2.move (.setAlias name a)
  push pivot same := by
    refine ⟨same.writer, same.grammars, same.parameters, ?_, ?_, ?_⟩
    · rw [Resolver.uncached_push, Resolver.uncached_push, same.uncached]
    · exact same.faithful.1.move (.push pivot)
    · exact same.faithful.2.move (.push pivot)
  pop := related_pop_uncached g

end

/-- The steps that succeed in a session. -/
def succeeding (c : Context) : List Step → List Step
  | [] => []
  | s :: steps =>
    match c.step s with
    | (.ok _, after) => s :: after.succeeding steps
    | (.error _, after) => after.succeeding steps

/-- The steps that succeed answer the same without the others, from a context that differs in what
its caches hold. -/
theorem runAll_succeeding {g : Grammar} {c d : Context} (same : SameButCaches g c d)
    {steps : List Step} (plain : ∀ s ∈ steps, s.Searches Path.Plain g)
    (atomic : ∀ s ∈ steps, s.isAtomic = true) :
    (d.runAll (c.succeeding steps)).1 = (c.runAll steps).1.filter Except.isOk ∧
      SameButCaches g (c.runAll steps).2 (d.runAll (c.succeeding steps)).2 := by
  induction steps generalizing c d with
  | nil => exact ⟨rfl, same⟩
  | cons s steps ih =>
    have laterPlain : ∀ t ∈ steps, t.Searches Path.Plain g := fun t mem =>
      plain t (List.mem_cons_of_mem s mem)
    have laterAtomic : ∀ t ∈ steps, t.isAtomic = true := fun t mem =>
      atomic t (List.mem_cons_of_mem s mem)
    cases result : c.step s with
    | mk answer after =>
      cases answer with
      | error error =>
        have looked := looked_of_step_fails (atomic s List.mem_cons_self) (congrArg Prod.fst result)
        rw [result] at looked
        simp only [succeeding, runAll, result]
        exact ih (same.looked looked) laterPlain laterAtomic
      | ok answer =>
        have alike := related_act (simulation_sameButCaches g) (plain s List.mem_cons_self) c d same
        rw [← step_eq_exec, ← step_eq_exec, result] at alike
        cases other : d.step s with
        | mk answerToo afterToo =>
          rw [other] at alike
          cases alike with
          | ok equal states =>
            obtain ⟨answers, last⟩ := ih states laterPlain laterAtomic
            simp only [succeeding, runAll, result, other]
            refine ⟨?_, last⟩
            rw [← equal trivial, answers]
            rfl

/-- In a session on plain paths the steps that fail can be left out: the others answer the same, and
the finished statement has the same parameters. -/
theorem failed_steps_leave_no_trace (c : Context) (schema : Schema) (pivot : Element)
    (fresh : c.resolver = .new schema pivot) (steps : List Step)
    (plain : ∀ s ∈ steps, s.Searches Path.Plain c.grammar)
    (atomic : ∀ s ∈ steps, s.isAtomic = true) :
    (c.runAll (c.succeeding steps)).1 = (c.runAll steps).1.filter Except.isOk ∧
      ∀ sql, ((c.runAll (c.succeeding steps)).2.finish sql).parameters =
        ((c.runAll steps).2.finish sql).parameters := by
  have faithful : c.resolver.Faithful := by
    rw [fresh]
    exact Resolver.faithful_new schema pivot
  have same : SameButCaches c.grammar c c := ⟨rfl, ⟨rfl, rfl⟩, rfl, rfl, faithful, faithful⟩
  obtain ⟨answers, after⟩ := runAll_succeeding same plain atomic
  refine ⟨answers, fun sql => ?_⟩
  rw [Context.finish, Context.finish, after.parameters]

def shopContext : Context :=
  { writer := { dialect := .mysql }
    resolver := .new (.ofNamespace ⟨"shop",
      [⟨"orders", false, [⟨"id", .integer, false, false, none⟩], []⟩,
        ⟨"items", false, [⟨"sku", .string, false, false, none⟩], []⟩]⟩) (.space "shop")
    grammar := ⟨Operators.standard, ⟨⟨2024, 1, 1⟩, 0, 0⟩⟩ }

/-- Steps of which three fail: one after it has found a table, which an alias hides later on, one
after a parameter has occurred, and one because there is no scope to be closed. -/
def hidingSteps : List Step :=
  [.find .column ["orders", "size"], .parameter "a",
    .render (.binary .eq (.parameter "b") (.column ["items", "size"]) .boolean),
    .setAlias "orders" (.element (.table (some "shop") "items")), .pop,
    .render (.binary .eq (.parameter "a") (.column ["orders", "sku"]) .boolean)]

/-- The table that a failed step has found does not come back. -/
theorem failed_steps_leave_no_trace_after_alias :
    (∀ s ∈ hidingSteps, s.Searches Path.Plain shopContext.grammar) ∧
      (∀ s ∈ hidingSteps, s.isAtomic = true) ∧ (shopContext.succeeding hidingSteps).length = 3 ∧
      (shopContext.runAll (shopContext.succeeding hidingSteps)).1 =
        (shopContext.runAll hidingSteps).1.filter Except.isOk := by
  have plain : ∀ s ∈ hidingSteps, s.Searches Path.Plain shopContext.grammar := by
    simp only [hidingSteps, List.forall_mem_cons, Step.Searches]
    exact ⟨by decide, trivial, by decide, trivial, trivial, by decide, by simp⟩
  have atomic : ∀ s ∈ hidingSteps, s.isAtomic = true := by decide
  exact ⟨plain, atomic, by decide,
    (failed_steps_leave_no_trace shopContext _ _ rfl hidingSteps plain atomic).1⟩

end Context
end SqlFragment
