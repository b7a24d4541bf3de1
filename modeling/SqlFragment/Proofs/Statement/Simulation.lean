import SqlFragment.Proofs.Statement.Congruence
import SqlFragment.Proofs.Statement.Session

/-
Two sessions with the same steps. Where contexts that cannot be told apart stay so whatever a step
does, all the steps of a session succeed in both or fail in both.
-/
namespace SqlFragment

def Expr.paths (e : Expr) : List Path := e.leaves.filterMap fun
  | .column path | .table path => some path
  | _ => none

/-- All that a step looks up are paths of one kind. -/
def Step.Searches (Searched : Path → Prop) (g : Grammar) : Step → Prop
  | .find _ path => Searched path
  | .render e | .renderKeeping e => ∀ path ∈ e.paths, Searched path
  | .compile input => ∀ e, g.evaluate input = .ok e → ∀ path ∈ e.paths, Searched path
  | _ => True

namespace Context

/-- A relation between contexts with one grammar that every step keeps. -/
structure Simulation (R : Context → Context → Prop) (Searched : Path → Prop) (sameText : Prop)
    (g : Grammar) : Prop extends Congruent R Searched sameText where
  parsed : ∀ text, Searched (Path.parse text)
  grammar : ∀ {c d : Context}, R c d → c.grammar = g ∧ d.grammar = g
  parameter : ∀ name, Related R (EqualIf sameText) (parameter name) (parameter name)
  setDefault : ∀ name e, Related R (fun _ _ => True) (setDefault name e) (setDefault name e)
  restore : ∀ {c d e f : Context}, R c d → R e f →
    R { e with parameters := c.parameters } { f with parameters := d.parameters }
  reset : ∀ {c d : Context}, R c d → R { c with parameters := {} } { d with parameters := {} }
  setAlias : ∀ {c d : Context} (name : String) (a : Alias), R c d →
    R { c with resolver := c.resolver.setAlias name a }
      { d with resolver := d.resolver.setAlias name a }
  push : ∀ {c d : Context} (pivot : Element), R c d →
    R { c with resolver := c.resolver.push pivot } { d with resolver := d.resolver.push pivot }
  pop : Related R (fun _ _ => True) pop pop

section
variable {R : Context → Context → Prop} {Searched : Path → Prop} {sameText : Prop} {g : Grammar}

theorem related_renderKeeping (sim : Simulation R Searched sameText g) {e : Expr}
    (searched : ∀ path ∈ e.paths, Searched path) :
    Related R (EqualIf sameText) (renderKeeping e) (renderKeeping e) := by
  rw [renderKeeping_eq]
  refine Related.map (related_mapM fun l mem => ?_) fun x y same text => by rw [same text]
  refine related_writeLeaf sim.toCongruent (fun path is => ?_) fun name _ => sim.parameter name
  refine searched path (List.mem_filterMap.mpr ⟨l, mem, ?_⟩)
  rcases is with rfl | rfl <;> rfl

theorem related_render (sim : Simulation R Searched sameText g) {e : Expr}
    (searched : ∀ path ∈ e.paths, Searched path) :
    Related R (EqualIf sameText) (render e) (render e) := by
  refine related_get.bind fun c d related => ?_
  refine (related_renderKeeping sim searched).tryCatch fun error => ?_
  refine Related.bind (related_modify fun s t later => ?_) fun _ _ _ => related_throw error
  exact sim.restore related later

theorem related_compile (sim : Simulation R Searched sameText g) {input : Input}
    (searched : ∀ e, g.evaluate input = .ok e → ∀ path ∈ e.paths, Searched path) :
    Related R (EqualIf sameText) (compile input) (compile input) := by
  intro c d related
  obtain ⟨first, second⟩ := sim.grammar related
  rw [exec_compile, exec_compile, first, second]
  cases read : g.evaluate input with
  | error e => exact .error related
  | ok e => exact related_render sim (searched e read) c d related

theorem related_pathArgument (sim : Simulation R Searched sameText g) (capability : String)
    (arguments : List Value) :
    Related R (fun p q => p = q ∧ Searched p) (pathArgument capability arguments)
      (pathArgument capability arguments) := by
  unfold pathArgument
  split
  · exact related_pure ⟨rfl, sim.parsed _⟩
  · exact related_throw _

theorem related_findNamed (sim : Simulation R Searched sameText g) (kind : ElementKind)
    (capability : String) (arguments : List Value) :
    Related R (EqualIf sameText) (findNamed kind capability arguments)
      (findNamed kind capability arguments) := by
  refine (related_pathArgument sim capability arguments).bind fun p q arg => ?_
  obtain ⟨rfl, searched⟩ := arg
  refine (related_find sim.toCongruent kind searched).bind fun e f found => ?_
  subst found
  exact related_pure fun _ => rfl

theorem related_invoke (sim : Simulation R Searched sameText g) (name : String)
    (arguments : List Value) :
    Related R (EqualIf sameText) (invoke name arguments) (invoke name arguments) := by
  refine related_get.bind fun c d related => ?_
  have agree := c.writer.invoke?_agree d.writer name arguments
  have same : sameText → c.writer.invoke? name arguments = d.writer.invoke? name arguments :=
    fun text => by rw [sim.writer related text]
  have aliases := sim.alias? related
  generalize c.writer.invoke? name arguments = x at agree same
  generalize d.writer.invoke? name arguments = y at agree same
  cases x with
  | some a =>
    cases y with
    | none => cases agree
    | some b =>
      exact related_ofDialect (Option.some.inj agree) fun text => Option.some.inj (same text)
  | none =>
    cases y with
    | some b => cases agree
    | none =>
      dsimp only
      split
      · exact related_findNamed sim _ _ _
      · exact related_findNamed sim _ _ _
      · exact related_findNamed sim _ _ _
      · split
        · exact related_pure fun _ => by rw [Scope.isAlias, Scope.isAlias, aliases]
        · exact related_throw _
      · exact related_throw _

/-- Every step goes the same way. -/
theorem related_act (sim : Simulation R Searched sameText g) {s : Step}
    (searched : s.Searches Searched g) : Related R (EqualIf sameText) (act s) (act s) := by
  have answer : ∀ {α : Type} {f : α → Answer} {a : Action α},
      Related R (EqualIf sameText) a a → Related R (EqualIf sameText) (f <$> a) (f <$> a) :=
    fun related => related.map fun x y same text => by rw [same text]
  have done : ∀ {a : Action Unit}, Related R (fun _ _ => True) a a →
      Related R (EqualIf sameText) (a *> pure Answer.none) (a *> pure Answer.none) := by
    intro a related
    rw [seqRight_eq_bind]
    exact related.bind fun _ _ _ => related_pure fun _ => rfl
  cases s with
  | compile input => exact answer (related_compile sim searched)
  | render e => exact answer (related_render sim searched)
  | renderKeeping e => exact answer (related_renderKeeping sim searched)
  | parameter name => exact answer (sim.parameter name)
  | setDefault name e => exact done (sim.setDefault name e)
  | reset => exact done (related_modify fun _ _ related => sim.reset related)
  | find kind path =>
    exact (related_find sim.toCongruent kind searched).map fun x y same _ => by rw [same]
  | invoke name arguments => exact answer (related_invoke sim name arguments)
  | setAlias name a => exact done (related_modify fun _ _ related => sim.setAlias name a related)
  | push pivot => exact done (related_modify fun _ _ related => sim.push pivot related)
  | pop => exact done sim.pop
  | literal v t => exact answer (related_literal sim.toCongruent v t)
  | columnType t =>
    refine answer (related_get.bind fun c d related => ?_)
    exact related_ofDialect (c.writer.dialect.columnType_agree d.writer.dialect t) fun text => by
      rw [sim.writer related text]
  | columnDefinition column =>
    refine answer (related_get.bind fun c d related => ?_)
    exact related_ofDialect (c.writer.columnDefinition_agree d.writer column) fun text => by
      rw [sim.writer related text]

/-- All steps succeed in both contexts or fail in both, and they lead to related contexts. -/
theorem agree_runAll (sim : Simulation R Searched sameText g) {c d : Context} (related : R c d)
    (steps : List Step) (searched : ∀ s ∈ steps, s.Searches Searched g) :
    (c.runAll steps).1.map (fun answer => answer.map fun _ => ()) =
        (d.runAll steps).1.map (fun answer => answer.map fun _ => ()) ∧
      R (c.runAll steps).2 (d.runAll steps).2 := by
  induction steps generalizing c d with
  | nil => exact ⟨rfl, related⟩
  | cons s steps ih =>
    have alike := related_act sim (searched s List.mem_cons_self) c d related
    rw [← step_eq_exec, ← step_eq_exec] at alike
    simp only [runAll]
    have later : ∀ t ∈ steps, t.Searches Searched g := fun t mem =>
      searched t (List.mem_cons_of_mem s mem)
    obtain ⟨answers, after⟩ := ih alike.states later
    rw [List.map_cons, List.map_cons, alike.outcome, answers]
    exact ⟨rfl, after⟩

end

end Context
end SqlFragment
