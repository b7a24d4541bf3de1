import SqlFragment.Statement.Session

/-
Actions that change a state and may fail, the state after a failure being kept: what each way of
putting actions together gives from a state, and when two actions go the same way from two states.
-/
namespace SqlFragment

section
variable {ε σ α β : Type}

/-- The result of an action from a state, and the state after it. -/
def exec (a : ExceptT ε (StateM σ) α) (s : σ) : Except ε α × σ := StateT.run (ExceptT.run a) s

variable (a : ExceptT ε (StateM σ) α) (s : σ)

@[simp] theorem exec_pure (x : α) : exec (pure x : ExceptT ε (StateM σ) α) s = (.ok x, s) := rfl

@[simp] theorem exec_throw (e : ε) :
    exec (throw e : ExceptT ε (StateM σ) α) s = (.error e, s) := rfl

@[simp] theorem exec_get : exec (get : ExceptT ε (StateM σ) σ) s = (.ok s, s) := rfl

theorem exec_bind (k : α → ExceptT ε (StateM σ) β) : exec (a >>= k) s =
    match exec a s with
    | (.ok x, t) => exec (k x) t
    | (.error e, t) => (.error e, t) := by
  unfold exec ExceptT.run StateT.run
  simp only [bind, ExceptT.bind, ExceptT.mk, StateT.bind, ExceptT.bindCont]
  cases a s with
  | mk result after => cases result <;> rfl

theorem exec_get_bind (k : σ → ExceptT ε (StateM σ) β) : exec (get >>= k) s = exec (k s) s := by
  rw [exec_bind, exec_get]

theorem exec_tryCatch (handle : ε → ExceptT ε (StateM σ) α) : exec (tryCatch a handle) s =
    match exec a s with
    | (.ok x, t) => (.ok x, t)
    | (.error e, t) => exec (handle e) t := by
  unfold exec ExceptT.run StateT.run
  simp only [tryCatch, tryCatchThe, MonadExceptOf.tryCatch, ExceptT.tryCatch, ExceptT.mk, bind,
    StateT.bind]
  cases a s with
  | mk result after => cases result <;> rfl

theorem exec_map (f : α → β) : exec (f <$> a) s = ((exec a s).1.map f, (exec a s).2) := by
  unfold exec ExceptT.run StateT.run
  simp only [Functor.map, ExceptT.map, ExceptT.mk, bind, StateT.bind]
  cases a s with
  | mk result after => cases result <;> rfl

theorem exec_seqRight (b : ExceptT ε (StateM σ) β) : exec (a *> b) s =
    match exec a s with
    | (.ok _, t) => exec b t
    | (.error e, t) => (.error e, t) := by
  rw [seqRight_eq_bind, exec_bind]

theorem exec_mapM_cons (f : β → ExceptT ε (StateM σ) α) (x : β) (xs : List β) :
    exec ((x :: xs).mapM f) s =
      match exec (f x) s with
      | (.ok y, t) => ((exec (xs.mapM f) t).1.map (y :: ·), (exec (xs.mapM f) t).2)
      | (.error e, t) => (.error e, t) := by
  simp only [List.mapM_cons, bind_pure_comp, exec_bind, exec_map]

theorem exec_mapM_cons_ok {f : β → ExceptT ε (StateM σ) α} {x : β} {xs : List β} {ys : List α}
    {s t : σ} (run : exec ((x :: xs).mapM f) s = (.ok ys, t)) :
    ∃ y zs middle, ys = y :: zs ∧ exec (f x) s = (.ok y, middle) ∧
      exec (xs.mapM f) middle = (.ok zs, t) := by
  rw [exec_mapM_cons] at run
  cases first : exec (f x) s with
  | mk result middle =>
    rw [first] at run
    cases result with
    | error e => cases run
    | ok y =>
      obtain ⟨results, states⟩ := Prod.mk.inj run
      cases rest : (exec (xs.mapM f) middle).1 with
      | error e =>
        rw [rest] at results
        cases results
      | ok zs =>
        rw [rest] at results
        cases results
        exact ⟨y, zs, middle, rfl, rfl, Prod.ext rest states⟩

end

theorem both_of_map_eq {α β : Type} {f : α → β} {x y : Option α} (same : x.map f = y.map f) :
    (x = none ∧ y = none) ∨ ∃ a b, x = some a ∧ y = some b ∧ f a = f b := by
  cases x with
  | none =>
    cases y with
    | none => exact .inl ⟨rfl, rfl⟩
    | some b => cases same
  | some a =>
    cases y with
    | none => cases same
    | some b => exact .inr ⟨a, b, rfl, rfl, Option.some.inj same⟩

section
variable {ε σ α β γ δ : Type} {R : σ → σ → Prop} {Q : α → β → Prop} {P : γ → δ → Prop}

/-- Two runs that go the same way: both give results or both fail, with the same error. -/
inductive Alike (R : σ → σ → Prop) (Q : α → β → Prop) : Except ε α × σ → Except ε β × σ → Prop
  | ok {x : α} {y : β} {s t : σ} (same : Q x y) (states : R s t) : Alike R Q (.ok x, s) (.ok y, t)
  | error {e : ε} {s t : σ} (states : R s t) : Alike R Q (.error e, s) (.error e, t)

theorem Alike.states {x : Except ε α × σ} {y : Except ε β × σ} (alike : Alike R Q x y) :
    R x.2 y.2 := by
  cases alike with
  | ok _ states => exact states
  | error states => exact states

theorem Alike.outcome {x : Except ε α × σ} {y : Except ε β × σ} (alike : Alike R Q x y) :
    x.1.map (fun _ => ()) = y.1.map fun _ => () := by
  cases alike <;> rfl

/-- From related states two actions go the same way, and they lead to related states. -/
def Related (R : σ → σ → Prop) (Q : α → β → Prop) (a : ExceptT ε (StateM σ) α)
    (b : ExceptT ε (StateM σ) β) : Prop :=
  ∀ s t, R s t → Alike R Q (exec a s) (exec b t)

variable {a : ExceptT ε (StateM σ) α} {b : ExceptT ε (StateM σ) β}

theorem related_pure {x : α} {y : β} (same : Q x y) :
    Related R Q (pure x : ExceptT ε (StateM σ) α) (pure y) :=
  fun _ _ related => .ok same related

theorem related_throw (e : ε) : Related R Q (throw e : ExceptT ε (StateM σ) α) (throw e) :=
  fun _ _ related => .error related

theorem related_get : Related R R (get : ExceptT ε (StateM σ) σ) get :=
  fun _ _ related => .ok related related

theorem related_modify {f g : σ → σ} (related : ∀ s t, R s t → R (f s) (g t)) :
    Related R (fun _ _ => True) (modify f : ExceptT ε (StateM σ) PUnit) (modify g) :=
  fun s t before => .ok trivial (related s t before)

theorem Related.bind {k : α → ExceptT ε (StateM σ) γ} {l : β → ExceptT ε (StateM σ) δ}
    (first : Related R Q a b) (next : ∀ x y, Q x y → Related R P (k x) (l y)) :
    Related R P (a >>= k) (b >>= l) := by
  intro s t before
  have alike := first s t before
  rw [exec_bind, exec_bind]
  generalize exec a s = x at alike
  generalize exec b t = y at alike
  cases alike with
  | ok same states => exact next _ _ same _ _ states
  | error states => exact .error states

theorem Related.tryCatch {h : ε → ExceptT ε (StateM σ) α} {k : ε → ExceptT ε (StateM σ) β}
    (first : Related R Q a b) (handled : ∀ e, Related R Q (h e) (k e)) :
    Related R Q (tryCatch a h) (tryCatch b k) := by
  intro s t before
  have alike := first s t before
  rw [exec_tryCatch, exec_tryCatch]
  generalize exec a s = x at alike
  generalize exec b t = y at alike
  cases alike with
  | ok same states => exact .ok same states
  | error states => exact handled _ _ _ states

theorem Related.map {f : α → γ} {g : β → δ} (related : Related R Q a b)
    (same : ∀ x y, Q x y → P (f x) (g y)) : Related R P (f <$> a) (g <$> b) := by
  rw [map_eq_pure_bind, map_eq_pure_bind]
  exact related.bind fun x y before => related_pure (same x y before)

end

end SqlFragment
