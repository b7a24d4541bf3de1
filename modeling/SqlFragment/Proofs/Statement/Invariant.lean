import SqlFragment.Proofs.Resolver.Transparency
import SqlFragment.Proofs.Statement.Session

/-
Invariants of a session. All that a step does to a context is to look something up, to record
parameters or forget them, to set a default, and to open, close or alias scopes. A property that
each of these keeps holds after every session that it holds before.
-/
namespace SqlFragment.Context

/-- A property of contexts that is kept by whatever a step may do. -/
structure Kept (P : Context → Prop) : Prop where
  look : ∀ {c d}, P c → Looked c d → P d
  occur : ∀ {c name token parameters}, P c →
    c.parameters.occur c.writer.dialect name = .ok (token, parameters) → P { c with parameters }
  setDefault : ∀ {c name e parameters}, P c →
    c.parameters.setDefault? name e = some parameters → P { c with parameters }
  reset : ∀ {c}, P c → P { c with parameters := {} }
  move : ∀ {c}, P c → ∀ m, P { c with resolver := c.resolver.move m }

section
variable {P : Context → Prop} {c : Context}

theorem Kept.writeLeaf (kept : Kept P) (holds : P c) (l : Expr.Leaf) :
    P (exec (writeLeaf l) c).2 := by
  cases l with
  | literal v t => exact kept.look holds (looking_literal v t c)
  | parameter name =>
    obtain ⟨token, parameters, occurs, run⟩ := exec_parameter name c
    rw [Context.writeLeaf, run]
    exact kept.occur holds occurs
  | column path => exact kept.look holds (looking_renderColumn path c)
  | table path => exact kept.look holds (looking_renderTable path c)

theorem Kept.writeLeaves (kept : Kept P) (holds : P c) (ls : List Expr.Leaf) :
    P (exec (ls.mapM Context.writeLeaf) c).2 := by
  induction ls generalizing c with
  | nil => exact holds
  | cons l ls ih =>
    have first := kept.writeLeaf holds l
    rw [exec_mapM_cons]
    generalize exec (Context.writeLeaf l) c = x at first
    obtain ⟨result, middle⟩ := x
    cases result with
    | error e => exact first
    | ok text => exact ih first

theorem Kept.render (kept : Kept P) (holds : P c) (e : Expr) : P (exec (render e) c).2 := by
  cases result : (exec (Context.render e) c).1 with
  | error error => exact kept.look holds (looked_of_render_fails result)
  | ok text =>
    have after := kept.writeLeaves holds e.leaves
    rw [exec_render] at result ⊢
    generalize exec (e.leaves.mapM Context.writeLeaf) c = x at after result
    obtain ⟨written, last⟩ := x
    cases written with
    | error error => cases result
    | ok texts => exact after

theorem Kept.step (kept : Kept P) (holds : P c) (s : Step) : P (c.step s).2 := by
  rw [step_eq_exec]
  cases s with
  | find _ _ | invoke _ _ | literal _ _ | columnType _ | columnDefinition _ =>
    exact kept.look holds (looking_act rfl c)
  | reset => exact kept.reset holds
  | setAlias name a => exact kept.move holds (.setAlias name a)
  | push pivot => exact kept.move holds (.push pivot)
  | render e =>
    rw [act, exec_map]
    exact kept.render holds e
  | renderKeeping e =>
    rw [act, exec_map, renderKeeping_eq, exec_map]
    exact kept.writeLeaves holds e.leaves
  | compile input =>
    rw [act, exec_map, exec_compile]
    split
    · exact kept.render holds _
    · exact holds
  | parameter name =>
    obtain ⟨token, parameters, occurs, run⟩ := exec_parameter name c
    rw [act, exec_map, run]
    exact kept.occur holds occurs
  | setDefault name e =>
    rw [act, exec_seqRight, exec_setDefault]
    cases sets : c.parameters.setDefault? name e with
    | none => exact holds
    | some parameters => exact kept.setDefault holds sets
  | pop =>
    have after := kept.move holds .pop
    unfold Resolver.move at after
    rw [act, exec_seqRight, exec_pop]
    cases popped : c.resolver.pop? with
    | none => exact holds
    | some resolver =>
      rw [popped] at after
      exact after

theorem Kept.runAll (kept : Kept P) (holds : P c) (steps : List Step) :
    P (c.runAll steps).2 := by
  induction steps generalizing c with
  | nil => exact holds
  | cons s steps ih => exact ih (kept.step holds s)

end

theorem kept_each {P : Schema → Scope → Prop} (kept : Scope.Kept P) :
    Kept fun c => c.resolver.Each P where
  look each looked := each.grows kept looked.resolver
  occur each _ := each
  setDefault each _ := each
  reset each := each
  move each m := each.move kept m

end SqlFragment.Context
