import SqlFragment.Proofs.Statement.Registry
import SqlFragment.Proofs.Statement.Rendering
import SqlFragment.Proofs.Statement.Session

/-
The ledger of a session: the placeholders that its successful steps handed out since the parameters
were last forgotten, and the defaults that were set. The parameters of the context are always those
of the ledger.
-/
namespace SqlFragment

/-- The parameters are those of some placeholders, which are given with their names, and have the
defaults of a table. -/
structure Parameters.Recorded (p : Parameters) (d : Dialect) (handed : List (String × String))
    (table : List (String × Expr)) : Prop where
  records : p.Records (Expr.firsts (handed.map Prod.fst)) (handed.map Prod.fst)
  written : ∀ h ∈ handed, ∃ normalized ordinal i, (h.1, normalized, ordinal) ∈ p.written ∧
    h.2 = d.placeholder normalized ⟨i, ordinal⟩
  defaults : p.Defaults table
  unset : ∀ name, name ∉ handed.map Prod.fst → table.lookup name = none

namespace Parameters
variable {p q : Parameters} {d : Dialect} {handed : List (String × String)}
  {table : List (String × Expr)}

theorem recorded_empty (d : Dialect) : Recorded {} d [] [] where
  records := Parameters.records_empty
  written := by simp
  defaults := by simp [Parameters.Defaults]
  unset := by simp

theorem Recorded.get?_eq_none (recorded : p.Recorded d handed table) {name : String} :
    p.get? name = none ↔ name ∉ handed.map Prod.fst := by
  rw [Parameters.get?_eq_none, ← Expr.mem_firsts, recorded.records.mem_iff]

theorem Recorded.occur (recorded : p.Recorded d handed table) {name token : String}
    (occurs : p.occur d name = .ok (token, q)) : q.Recorded d (handed ++ [(name, token)]) table := by
  obtain ⟨normalized, free, spec⟩ := p.occur_spec d name
  cases occurs.symm.trans spec
  refine ⟨?_, ?_, ?_, ?_⟩
  · rw [List.map_append]
    exact recorded.records.note free
  · intro h mem
    rcases List.mem_append.mp mem with before | last
    · obtain ⟨n, o, i, held, token⟩ := recorded.written h before
      exact ⟨n, o, i, p.written_subset_note name normalized held, token⟩
    · rw [List.mem_singleton.mp last]
      exact ⟨_, _, _, p.mem_written_note name normalized, rfl⟩
  · exact recorded.defaults.note fun new => recorded.unset name (recorded.get?_eq_none.mp new)
  · intro other absent
    rw [List.map_append] at absent
    exact recorded.unset other fun mem => absent (List.mem_append_left _ mem)

theorem Recorded.occurEach (recorded : p.Recorded d handed table) {names tokens : List String}
    (occurs : p.occurEach d names = .ok (tokens, q)) :
    q.Recorded d (handed ++ names.zip tokens) table ∧ tokens.length = names.length := by
  induction names generalizing p handed tokens with
  | nil =>
    cases occurs
    rw [List.zip_nil_left, List.append_nil]
    exact ⟨recorded, rfl⟩
  | cons name names ih =>
    obtain ⟨token, others, middle, rfl, first, rest⟩ := occurEach_cons occurs
    obtain ⟨recordedRest, length⟩ := ih (recorded.occur first) rest
    rw [List.append_assoc] at recordedRest
    exact ⟨recordedRest, congrArg (· + 1) length⟩

theorem Recorded.setDefault (recorded : p.Recorded d handed table) {name : String} {e : Expr}
    (sets : p.setDefault? name e = some q) : q.Recorded d handed ((name, e) :: table) := by
  obtain ⟨descriptor, held, rfl⟩ := Option.map_eq_some_iff.mp sets
  have known : name ∈ handed.map Prod.fst := by
    rw [← Expr.mem_firsts, recorded.records.mem_iff]
    exact ⟨_, mem_of_get? held, rfl⟩
  refine ⟨recorded.records.setDefault name e, ?_, recorded.defaults.setDefault name e, ?_⟩
  · rw [p.written_setDefault name e]
    exact recorded.written
  · intro other absent
    have different : other ≠ name := fun same => absent (same ▸ known)
    rw [List.lookup_cons, beq_eq_false_iff_ne.mpr different]
    exact recorded.unset other absent

end Parameters

structure Ledger where
  /-- The names of the parameters with their placeholders, in the order of the steps. -/
  handed : List (String × String) := []
  /-- The defaults, the last one first. -/
  defaults : List (String × Expr) := []
  /-- The texts that were answered, one after the other. -/
  text : String := ""

def Step.placeholders (g : Grammar) : Step → List String
  | .parameter name => [name]
  | .render e => e.placeholders
  | .compile input =>
    match g.evaluate input with
    | .ok e => e.placeholders
    | .error _ => []
  | _ => []

def Answer.written : Answer → String
  | .text s => s
  | _ => ""

namespace Context

def handed (c : Context) (s : Step) : List (String × String) :=
  let names := s.placeholders c.grammar
  match c.parameters.occurEach c.writer.dialect names with
  | .ok (tokens, _) => names.zip tokens
  | .error _ => []

/-- A step that succeeds hands out placeholders, sets a default or forgets everything. -/
def noteStep (c : Context) (l : Ledger) (s : Step) : Ledger :=
  match (c.step s).1 with
  | .error _ => l
  | .ok answer =>
    match s with
    | .reset => {}
    | .setDefault name e => { l with defaults := (name, e) :: l.defaults }
    | s => { l with handed := l.handed ++ c.handed s, text := l.text ++ answer.written }

def ledger (c : Context) (l : Ledger) : List Step → Ledger
  | [] => l
  | s :: steps => (c.step s).2.ledger (c.noteStep l s) steps

end Context

namespace Ledger

def names (l : Ledger) : List String := l.handed.map Prod.fst

def tokens (l : Ledger) : List String := l.handed.map Prod.snd

/-- The parameters of the context are those of the ledger, whose placeholders stand in its text. -/
structure Holds (l : Ledger) (c : Context) : Prop where
  recorded : c.parameters.Recorded c.writer.dialect l.handed l.defaults
  stand : Stand l.tokens l.text

end Ledger

namespace Context
variable {c : Context} {s : Step} {l : Ledger} {answer : Answer}

theorem occurEach_of_answer {e : Expr}
    (ok : (exec (render e) c).1.map Answer.text = .ok answer) :
    ∃ tokens, Stand tokens answer.written ∧
      c.parameters.occurEach c.writer.dialect e.placeholders =
        .ok (tokens, (exec (render e) c).2.parameters) := by
  cases result : (exec (render e) c).1 with
  | error error =>
    rw [result] at ok
    cases ok
  | ok text =>
    rw [result] at ok
    cases ok
    exact occurEach_of_render (Prod.ext result rfl)

/-- What a step records that changes no default and forgets nothing. -/
theorem occurEach_of_step (ok : (c.step s).1 = .ok answer) (atomic : s.isAtomic = true)
    (keeps : s ≠ .reset) (sets : ∀ name e, s ≠ .setDefault name e) :
    ∃ tokens, Stand tokens answer.written ∧
      c.parameters.occurEach c.writer.dialect (s.placeholders c.grammar) =
        .ok (tokens, (c.step s).2.parameters) := by
  rw [step_eq_exec] at ok ⊢
  cases s with
  | find _ _ | invoke _ _ | literal _ _ | columnType _ | columnDefinition _ =>
    refine ⟨[], trivial, congrArg (fun p => Except.ok ([], p)) (Eq.symm ?_)⟩
    exact (looking_act rfl c).parameters
  | setAlias _ _ | push _ => exact ⟨[], trivial, rfl⟩
  | reset => exact absurd rfl keeps
  | setDefault name e => exact absurd rfl (sets name e)
  | renderKeeping e => cases atomic
  | pop =>
    rw [act, exec_seqRight, exec_pop]
    cases c.resolver.pop? <;> exact ⟨[], trivial, rfl⟩
  | render e =>
    rw [act, exec_map] at ok ⊢
    exact occurEach_of_answer ok
  | compile input =>
    rw [act, exec_map, exec_compile] at ok ⊢
    rw [Step.placeholders]
    cases read : c.grammar.evaluate input with
    | error error =>
      rw [read] at ok
      cases ok
    | ok e =>
      rw [read] at ok
      exact occurEach_of_answer ok
  | parameter name =>
    obtain ⟨token, parameters, occurs, run⟩ := exec_parameter name c
    rw [act, exec_map, run] at ok ⊢
    cases ok
    refine ⟨[token], stand_singleton token, ?_⟩
    rw [Step.placeholders, Parameters.occurEach, occurs]
    rfl

theorem holds_hand (holds : l.Holds c)
    (records : ∃ tokens, Stand tokens answer.written ∧
      c.parameters.occurEach c.writer.dialect (s.placeholders c.grammar) =
        .ok (tokens, (c.step s).2.parameters)) :
    Ledger.Holds { l with handed := l.handed ++ c.handed s, text := l.text ++ answer.written }
      (c.step s).2 := by
  obtain ⟨tokens, stand, occurs⟩ := records
  obtain ⟨recorded, length⟩ := holds.recorded.occurEach occurs
  have handed : c.handed s = (s.placeholders c.grammar).zip tokens := by
    simp only [Context.handed, occurs]
  constructor
  · rw [writer_step, handed]
    exact recorded
  · rw [Ledger.tokens, handed, List.map_append, List.map_snd_zip (Nat.le_of_eq length)]
    exact holds.stand.append stand

/-- One step keeps the ledger. -/
theorem holds_step (holds : l.Holds c) (atomic : s.isAtomic = true) :
    (c.noteStep l s).Holds (c.step s).2 := by
  unfold noteStep
  cases result : (c.step s).1 with
  | error error =>
    have looked := looked_of_step_fails atomic result
    constructor
    · rw [writer_step, looked.parameters]
      exact holds.recorded
    · exact holds.stand
  | ok answer =>
    cases s with
    | reset => exact ⟨Parameters.recorded_empty _, trivial⟩
    | setDefault name e =>
      rw [step_eq_exec, act, exec_seqRight, exec_setDefault] at result ⊢
      cases sets : c.parameters.setDefault? name e with
      | none =>
        rw [sets] at result
        cases result
      | some parameters => exact ⟨holds.recorded.setDefault sets, holds.stand⟩
    | renderKeeping e => cases atomic
    | _ =>
      exact holds_hand holds (occurEach_of_step result rfl (by simp) (by simp))

/-- A whole session keeps the ledger. -/
theorem holds_runAll (holds : l.Holds c) {steps : List Step}
    (atomic : ∀ s ∈ steps, s.isAtomic = true) :
    (c.ledger l steps).Holds (c.runAll steps).2 := by
  induction steps generalizing c l with
  | nil => exact holds
  | cons s steps ih =>
    exact ih (holds_step holds (atomic s List.mem_cons_self)) fun t mem =>
      atomic t (List.mem_cons_of_mem s mem)

end Context

end SqlFragment
