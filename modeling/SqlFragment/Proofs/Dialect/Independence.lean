import SqlFragment.Dialect.Writer

/-
What can be written does not depend on the dialect or on the escaper: two writers give a text for
the same values, types and columns, and refuse the others with the same error.
-/
namespace SqlFragment

/-- Two outcomes that both give a result or are the same error. -/
def Agree {ε α : Type} (a b : Except ε α) : Prop := a.map (fun _ => ()) = b.map fun _ => ()

section
variable {ε α β : Type} {a b : Except ε α}

theorem Agree.refl (a : Except ε α) : Agree a a := rfl

theorem agree_ok (x y : α) : Agree (.ok x : Except ε α) (.ok y) := rfl

theorem Agree.bind {f g : α → Except ε β} (agree : Agree a b) (next : ∀ x y, Agree (f x) (g y)) :
    Agree (a >>= f) (b >>= g) := by
  cases a <;> cases b <;> cases agree
  · rfl
  · exact next _ _

theorem agree_bind (a : Except ε α) {f g : α → Except ε β} (next : ∀ x, Agree (f x) (g x)) :
    Agree (a >>= f) (a >>= g) := by
  cases a with
  | error e => rfl
  | ok x => exact next x

theorem Agree.map (agree : Agree a b) (f g : α → β) : Agree (a.map f) (b.map g) := by
  cases a <;> cases b <;> cases agree <;> rfl

end

theorem Dialect.columnType_agree (d d' : Dialect) (t : DataType) :
    Agree (d.columnType t) (d'.columnType t) := by
  have shape : ∀ d : Dialect, (d.columnType t).map (fun _ => ()) =
      if t = .undefined ∨ t = .null then .error (.noColumnType t) else .ok () := by
    intro d
    cases d <;> cases t <;> rfl
  exact (shape d).trans (shape d').symm

namespace Writer
variable (w w' : Writer)

theorem write_agree (v : Value) : Agree (w.write v) (w'.write v) := by
  cases v with
  | float x => exact .refl _
  | _ => exact agree_ok _ _

theorem literal_agree (v : Value) (t : DataType) : Agree (w.literal v t) (w'.literal v t) :=
  agree_bind _ fun _ => agree_bind _ fun v => w.write_agree w' v

theorem columnDefinition_agree (c : Column) :
    Agree (w.columnDefinition c) (w'.columnDefinition c) := by
  refine (w.dialect.columnType_agree w'.dialect c.type).bind fun _ _ => ?_
  cases c.default with
  | none => exact agree_ok _ _
  | some v => exact (w.literal_agree w' v c.type).bind fun _ _ => agree_ok _ _

/-- A capability is known to both writers or to none, and their answers agree. -/
theorem invoke?_agree (name : String) (arguments : List Value) :
    (w.invoke? name arguments).map (·.map fun _ => ()) =
      (w'.invoke? name arguments).map (·.map fun _ => ()) := by
  unfold invoke?
  dsimp only
  split
  · exact congrArg some (((Agree.refl (textArgument _ arguments)).map _ _).map _ _)
  · exact congrArg some (((Agree.refl (textArgument _ arguments)).map _ _).map _ _)
  · exact congrArg some (((Agree.refl (textArgument _ arguments)).map _ _).map _ _)
  · split
    · rfl
    · rfl
  · split
    · exact congrArg some ((w.literal_agree w' _ _).map _ _)
    · rfl
  · rfl
  · refine congrArg some (Agree.map ?_ _ _)
    exact agree_bind _ fun _ => agree_bind _ fun t => w.dialect.columnType_agree w'.dialect t
  · rfl

end Writer
end SqlFragment
