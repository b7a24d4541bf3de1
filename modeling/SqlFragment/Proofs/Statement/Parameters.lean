import SqlFragment.Proofs.Dialect.ParameterName
import SqlFragment.Statement.Parameters

/-
An occurrence of a parameter is always recorded: a name that is new is written with a name that no
other parameter is written with, and nothing else of the record depends on the dialect.
-/
namespace SqlFragment

/-- What of a descriptor does not depend on the dialect. -/
def Descriptor.unnamed (d : Descriptor) : Descriptor := { d with normalizedName := "" }

namespace Parameters

theorem nameFor_spec (p : Parameters) (d : Dialect) (name : String) :
    ∃ normalized, p.nameFor d name = .ok normalized ∧ normalized ∉ p.normalizedNames := by
  simp only [nameFor]
  split
  · rename_i free
    simp only [Bool.and_eq_true, Bool.not_eq_true', List.contains_eq_mem, decide_eq_false_iff_not]
      at free
    exact ⟨name, rfl, free.2⟩
  · exact d.normalizeName_spec name _

/-- The descriptor of a name, which is written as `normalized` if it is new, and the parameters that
hold it. -/
def enter (p : Parameters) (name normalized : String) : Descriptor × Parameters :=
  match p.get? name with
  | some descriptor => (descriptor, p)
  | none =>
    let descriptor : Descriptor := { normalizedName := normalized, ordinal := p.size + 1 }
    (descriptor, { p with entries := p.entries ++ [(name, descriptor)] })

def note (p : Parameters) (name normalized : String) : Parameters :=
  { (p.enter name normalized).2.modify name fun d =>
      { d with positions := d.positions ++ [p.occurrences] } with
    occurrences := p.occurrences + 1 }

def nextPosition (p : Parameters) (name normalized : String) : PlaceholderPosition :=
  ⟨p.occurrences, (p.enter name normalized).1.ordinal⟩

theorem occur_eq {p : Parameters} {d : Dialect} {name normalized : String}
    (named : p.nameFor d name = .ok normalized) :
    p.occur d name = .ok (d.placeholder (p.enter name normalized).1.normalizedName
      (p.nextPosition name normalized), p.note name normalized) := by
  unfold occur register note nextPosition enter
  cases p.get? name with
  | some descriptor => rfl
  | none =>
    rw [named]
    rfl

theorem occur_spec (p : Parameters) (d : Dialect) (name : String) :
    ∃ normalized, (p.get? name = none → normalized ∉ p.normalizedNames) ∧
      p.occur d name = .ok (d.placeholder (p.enter name normalized).1.normalizedName
        (p.nextPosition name normalized), p.note name normalized) := by
  obtain ⟨normalized, named, free⟩ := p.nameFor_spec d name
  exact ⟨normalized, fun _ => free, occur_eq named⟩

/-- Records one occurrence after the other, and gives their placeholders. -/
def occurEach (p : Parameters) (d : Dialect) :
    List String → Except DialectError (List String × Parameters)
  | [] => .ok ([], p)
  | name :: names => do
    let (token, p) ← p.occur d name
    let (tokens, p) ← p.occurEach d names
    return (token :: tokens, p)

theorem occurEach_cons {p q : Parameters} {d : Dialect} {name : String} {names tokens : List String}
    (occurs : p.occurEach d (name :: names) = .ok (tokens, q)) :
    ∃ token others middle, tokens = token :: others ∧ p.occur d name = .ok (token, middle) ∧
      middle.occurEach d names = .ok (others, q) := by
  rw [occurEach] at occurs
  cases first : p.occur d name with
  | error e =>
    rw [first] at occurs
    cases occurs
  | ok after =>
    obtain ⟨token, middle⟩ := after
    rw [first] at occurs
    cases rest : middle.occurEach d names with
    | error e =>
      have fails := congrArg (· >>= fun x => Except.ok (token :: x.1, x.2)) rest
      cases occurs.symm.trans fails
    | ok after =>
      have succeeds := congrArg (· >>= fun x => Except.ok (token :: x.1, x.2)) rest
      cases occurs.symm.trans succeeds
      exact ⟨token, after.1, middle, rfl, rfl, rest⟩

def unnamed (p : Parameters) : Parameters :=
  { p with entries := p.entries.map fun entry => (entry.1, entry.2.unnamed) }

section
variable (p : Parameters) (name : String)

theorem get?_unnamed : p.unnamed.get? name = (p.get? name).map Descriptor.unnamed := by
  simp only [get?, unnamed, List.find?_map, Option.map_map, Function.comp_def]

theorem unnamed_modify {f : Descriptor → Descriptor}
    (same : ∀ d, (f d).unnamed = f d.unnamed) :
    (p.modify name f).unnamed = p.unnamed.modify name f := by
  simp only [modify, unnamed, List.map_map, Function.comp_def]
  congr 2
  funext entry
  split <;> simp [same]

theorem unnamed_enter (normalized : String) :
    (p.enter name normalized).2.unnamed = (p.unnamed.enter name "").2 := by
  unfold enter
  rw [get?_unnamed]
  cases p.get? name with
  | some descriptor => rfl
  | none => simp [unnamed, Descriptor.unnamed, size]

theorem unnamed_note (normalized : String) :
    (p.note name normalized).unnamed = p.unnamed.note name "" := by
  have modified := unnamed_modify (p.enter name normalized).2 name
    (f := fun d => { d with positions := d.positions ++ [p.occurrences] }) fun _ => rfl
  rw [unnamed_enter] at modified
  have entries := congrArg entries modified
  unfold note
  exact congrArg (fun entries : List (String × Descriptor) =>
    (⟨entries, p.occurrences + 1⟩ : Parameters)) entries

theorem unnamed_occur {p q : Parameters} {d : Dialect} {name token : String}
    (occurs : p.occur d name = .ok (token, q)) : q.unnamed = p.unnamed.note name "" := by
  obtain ⟨normalized, _, spec⟩ := p.occur_spec d name
  cases occurs.symm.trans spec
  exact p.unnamed_note name normalized

theorem unnamed_setDefault (e : Expr) :
    (p.setDefault? name e).map unnamed = p.unnamed.setDefault? name e := by
  unfold setDefault?
  rw [get?_unnamed]
  cases p.get? name with
  | none => rfl
  | some descriptor =>
    exact congrArg some (p.unnamed_modify name fun _ => rfl)

end

end Parameters
end SqlFragment
