import SqlFragment.Proofs.Resolver.Transparency

/-
Scopes are nested like brackets. A step changes nothing below the current scope, so whatever is done
in inner scopes, the scopes around them are found as they were when the inner ones are closed.
-/
namespace SqlFragment.Resolver

namespace Move

def isPush : Move → Bool
  | .push _ => true
  | _ => false

def isPop : Move → Bool
  | .pop => true
  | _ => false

end Move

/-- The scope at a depth; the first one is at depth zero. -/
def scopeAt? (r : Resolver) (depth : Nat) : Option Scope := (r.outer.reverse ++ [r.scope])[depth]?

/-- As many scopes are opened as closed, and none is closed that was open at the start. -/
structure Balanced (steps : List Move) : Prop where
  inside : ∀ front, front <+: steps → front.countP Move.isPop ≤ front.countP Move.isPush
  total : steps.countP Move.isPop = steps.countP Move.isPush

theorem balanced_iff (steps : List Move) : Balanced steps ↔
    (∀ k ∈ List.range (steps.length + 1),
      (steps.take k).countP Move.isPop ≤ (steps.take k).countP Move.isPush) ∧
    steps.countP Move.isPop = steps.countP Move.isPush := by
  constructor
  · intro balanced
    exact ⟨fun k _ => balanced.inside _ (List.take_prefix k steps), balanced.total⟩
  · intro ⟨inside, total⟩
    constructor
    · intro front member
      have short := member.length_le
      have same := List.prefix_iff_eq_take.mp member
      rw [same]
      exact inside front.length (List.mem_range.mpr (by omega))
    · exact total

instance (steps : List Move) : Decidable (Balanced steps) :=
  decidable_of_iff _ (balanced_iff steps).symm

section
variable {r r' : Resolver}

theorem Grows.outer_eq (grown : Grows r r') : r'.outer = r.outer := by
  induction grown with
  | refl => rfl
  | store _ _ ih => exact ih

theorem store_pivot (r : Resolver) (kind : ElementKind) (path : Path) (e : Element) :
    (r.store kind path e).pivot = r.pivot := by
  unfold store pivot Scope.store
  split <;> rfl

theorem Grows.pivot_eq (grown : Grows r r') : r'.pivot = r.pivot := by
  induction grown with
  | refl => rfl
  | store _ _ ih => rw [store_pivot, ih]

end

section
variable (r : Resolver) (m : Move)

theorem scopeAt?_depth : r.scopeAt? r.depth = some r.scope := by
  simp [scopeAt?, depth]

theorem scopeAt?_of_lt {k : Nat} (below : k < r.depth) : r.scopeAt? k = r.outer.reverse[k]? := by
  unfold depth at below
  rw [scopeAt?, List.getElem?_append_left (by simpa using below)]

theorem schema_move : (r.move m).schema = r.schema := by
  cases m with
  | push pivot => rfl
  | pop =>
    obtain ⟨schema, scope, outer⟩ := r
    cases outer <;> rfl
  | setAlias name a => rfl
  | find kind path =>
    have same := congrArg Resolver.schema (r.find_grows path kind).uncached_eq
    exact same

theorem move_stays (push : m.isPush = false) (pop : m.isPop = false) :
    (r.move m).outer = r.outer ∧ (r.move m).pivot = r.pivot := by
  cases m with
  | push pivot => cases push
  | pop => cases pop
  | setAlias name a => exact ⟨rfl, rfl⟩
  | find kind path => exact ⟨(r.find_grows path kind).outer_eq, (r.find_grows path kind).pivot_eq⟩

theorem move_pop_of_root (root : r.depth = 0) : r.pop? = none ∧ r.move .pop = r := by
  have first : r.outer = [] := List.length_eq_zero_iff.mp root
  have refused : r.pop? = none := by rw [pop?, first]
  exact ⟨refused, by rw [move, refused, Option.getD_none]⟩

theorem depth_move : (r.move m).depth + (if m.isPop then 1 else 0) =
      r.depth + (if m.isPush then 1 else 0) ∨ m = .pop ∧ r.depth = 0 := by
  cases m with
  | push pivot => exact .inl rfl
  | pop =>
    obtain ⟨schema, scope, outer⟩ := r
    cases outer with
    | nil => exact .inr ⟨rfl, rfl⟩
    | cons next outer => exact .inl rfl
  | setAlias name a => exact .inl rfl
  | find kind path =>
    left
    have stays := (r.move_stays (.find kind path) rfl rfl).1
    unfold depth
    rw [stays]
    rfl

/-- A step changes no scope below the current one. -/
theorem scopeAt?_move {k : Nat} (below : k < r.depth) : (r.move m).scopeAt? k = r.scopeAt? k := by
  cases m with
  | push pivot =>
    have within : k < (r.push pivot).depth := Nat.lt_succ_of_lt below
    change (r.push pivot).scopeAt? k = _
    rw [scopeAt?_of_lt _ within]
    simp [push, scopeAt?]
  | pop =>
    obtain ⟨schema, scope, outer⟩ := r
    cases outer with
    | nil => cases below
    | cons next outer =>
      rw [scopeAt?_of_lt _ below]
      simp [move, pop?, scopeAt?]
  | setAlias name a =>
    rw [scopeAt?_of_lt _ below]
    exact scopeAt?_of_lt (r.setAlias name a) below
  | find kind path =>
    have stays := (r.move_stays (.find kind path) rfl rfl).1
    have within : k < (r.move (.find kind path)).depth := by
      unfold depth
      rwa [stays]
    rw [scopeAt?_of_lt _ below, scopeAt?_of_lt _ within, stays]

theorem pivot_move {k : Nat} (before : k ≤ r.depth) (after : k ≤ (r.move m).depth) :
    ((r.move m).scopeAt? k).map Scope.pivot = (r.scopeAt? k).map Scope.pivot := by
  rcases Nat.lt_or_eq_of_le before with below | rfl
  · rw [r.scopeAt?_move m below]
  · -- the current scope: it is neither closed nor left, or there is none to be closed
    cases pushed : m.isPush with
    | true =>
      cases m with
      | push pivot =>
        have within : r.depth < (r.push pivot).depth := Nat.lt_succ_self _
        change ((r.push pivot).scopeAt? r.depth).map _ = _
        rw [scopeAt?_of_lt _ within]
        simp [push, scopeAt?]
      | _ => cases pushed
    | false =>
      cases popped : m.isPop with
      | true =>
        cases m with
        | pop =>
          rcases r.depth_move .pop with change | ⟨_, root⟩
          · simp only [popped, pushed, ↓reduceIte, Bool.false_eq_true] at change
            omega
          · rw [(r.move_pop_of_root root).2]
        | _ => cases popped
      | false =>
        obtain ⟨outer, pivot⟩ := r.move_stays m pushed popped
        have same : (r.move m).depth = r.depth := by rw [depth, depth, outer]
        have kept : (r.move m).scope.pivot = r.scope.pivot := pivot
        rw [scopeAt?_depth, ← same, scopeAt?_depth, Option.map_some, Option.map_some, kept]

end

section
variable {r : Resolver} {steps : List Move}

theorem moves_append (r : Resolver) (front back : List Move) :
    r.moves (front ++ back) = (r.moves front).moves back := List.foldl_append

theorem schema_moves (r : Resolver) (steps : List Move) : (r.moves steps).schema = r.schema := by
  induction steps generalizing r with
  | nil => rfl
  | cons m steps ih => exact (ih (r.move m)).trans (r.schema_move m)

theorem depth_moves (inside : ∀ front, front <+: steps →
      front.countP Move.isPop ≤ front.countP Move.isPush + r.depth) :
    (r.moves steps).depth + steps.countP Move.isPop = r.depth + steps.countP Move.isPush := by
  induction steps generalizing r with
  | nil => rfl
  | cons m steps ih =>
    -- the bound at the first step rules out that it closes the outermost scope
    have first := inside [m] (by simp)
    have changed : (r.move m).depth + (if m.isPop then 1 else 0) =
        r.depth + (if m.isPush then 1 else 0) := by
      rcases r.depth_move m with changed | ⟨rfl, root⟩
      · exact changed
      · simp [Move.isPop, Move.isPush, root] at first
    have later : ((r.move m).moves steps).depth + steps.countP Move.isPop =
        (r.move m).depth + steps.countP Move.isPush := by
      apply ih
      intro front member
      have whole := inside (m :: front) (List.cons_prefix_cons.mpr ⟨rfl, member⟩)
      rw [List.countP_cons, List.countP_cons] at whole
      omega
    change ((r.move m).moves steps).depth + _ = _
    rw [List.countP_cons, List.countP_cons]
    omega

theorem scopeAt?_moves {k : Nat}
    (above : ∀ front m, front ++ [m] <+: steps → k < (r.moves front).depth) :
    (r.moves steps).scopeAt? k = r.scopeAt? k := by
  induction steps generalizing r with
  | nil => rfl
  | cons m steps ih =>
    have here : k < r.depth := above [] m (by simp)
    rw [← r.scopeAt?_move m here]
    apply ih
    intro front next member
    exact above (m :: front) next (List.cons_prefix_cons.mpr ⟨rfl, member⟩)

theorem pivot_moves {k : Nat} (above : ∀ front, front <+: steps → k ≤ (r.moves front).depth) :
    ((r.moves steps).scopeAt? k).map Scope.pivot = (r.scopeAt? k).map Scope.pivot := by
  induction steps generalizing r with
  | nil => rfl
  | cons m steps ih =>
    have first : k ≤ (r.move m).depth := above [m] (by simp)
    rw [← r.pivot_move m (above [] List.nil_prefix) first]
    apply ih
    intro front member
    exact above (m :: front) (List.cons_prefix_cons.mpr ⟨rfl, member⟩)

/-- Steps that close no scope of the start are never below it. -/
theorem Balanced.depth_le (balanced : Balanced steps) (r : Resolver) {front : List Move}
    (member : front <+: steps) :
    (r.moves front).depth + front.countP Move.isPop = r.depth + front.countP Move.isPush := by
  apply depth_moves
  intro start before
  have := balanced.inside start (before.trans member)
  omega

theorem Balanced.depth_eq (balanced : Balanced steps) (r : Resolver) :
    (r.moves steps).depth = r.depth := by
  have whole := balanced.depth_le r (List.prefix_refl steps)
  have total := balanced.total
  omega

theorem Balanced.above (balanced : Balanced steps) (r : Resolver) {front : List Move}
    (member : front <+: steps) : r.depth ≤ (r.moves front).depth := by
  have depth := balanced.depth_le r member
  have inside := balanced.inside front member
  omega

theorem Balanced.outer_eq (balanced : Balanced steps) (r : Resolver) :
    (r.moves steps).outer = r.outer := by
  have depth := balanced.depth_eq r
  have lengths : (r.moves steps).outer.length = r.outer.length := depth
  -- the scopes around, counted from the outermost one, are the same at each depth
  apply List.reverse_inj.mp
  apply List.ext_getElem?
  intro k
  rcases Nat.lt_or_ge k r.depth with below | beyond
  · rw [← scopeAt?_of_lt _ below, ← scopeAt?_of_lt _ (depth ▸ below)]
    apply scopeAt?_moves
    intro front m member
    exact Nat.lt_of_lt_of_le below (balanced.above r ((List.prefix_append front [m]).trans member))
  · have none (scopes : List Scope) (few : scopes.length = r.outer.length) :
        scopes.reverse[k]? = none := by
      apply List.getElem?_eq_none
      rw [List.length_reverse, few]
      exact beyond
    rw [none _ lengths, none _ rfl]

theorem Balanced.pivot_eq (balanced : Balanced steps) (r : Resolver) :
    (r.moves steps).pivot = r.pivot := by
  have kept : ((r.moves steps).scopeAt? r.depth).map Scope.pivot =
      (r.scopeAt? r.depth).map Scope.pivot := by
    apply pivot_moves
    intro front member
    exact balanced.above r member
  rw [scopeAt?_depth, ← balanced.depth_eq r, scopeAt?_depth] at kept
  exact Option.some.inj kept

theorem Balanced.pop_isSome (balanced : Balanced steps) (r : Resolver) {front back : List Move}
    (split : steps = front ++ .pop :: back) : (r.moves front).pop?.isSome = true := by
  have member : front ++ [.pop] <+: steps := by
    rw [split]
    exact ⟨back, by simp⟩
  have inside := balanced.inside _ member
  have depth := balanced.depth_le r ((List.prefix_append front [Move.pop]).trans member)
  rw [List.countP_append, List.countP_append] at inside
  have within : 0 < (r.moves front).depth := by
    simp only [List.countP_singleton, Move.isPop, Move.isPush, ↓reduceIte,
      Bool.false_eq_true] at inside
    omega
  unfold pop?
  cases outer : (r.moves front).outer with
  | nil => simp [Resolver.depth, outer] at within
  | cons next outer => rfl

/-- A scope that is opened and closed again leaves no trace. -/
theorem Balanced.scoped_eq (balanced : Balanced steps) (r : Resolver) (pivot : Element) :
    r.moves (.push pivot :: steps ++ [.pop]) = r := by
  have opened : r.moves (.push pivot :: steps ++ [.pop]) = ((r.push pivot).moves steps).move .pop :=
    moves_append r (.push pivot :: steps) [.pop]
  have outer : ((r.push pivot).moves steps).outer = r.scope :: r.outer :=
    balanced.outer_eq (r.push pivot)
  have schema : ((r.push pivot).moves steps).schema = r.schema := schema_moves _ _
  rw [opened, move, pop?, outer, schema]
  rfl

end

/-- Balanced steps meet no scope that cannot be closed. They end at the depth where they began, with
the same scopes around and the same pivot. What is done above the first scope leaves it untouched,
and a scope opened before and closed after them leaves the resolver as it was. -/
theorem nested_scopes_isolated (r : Resolver) (steps : List Move) (balanced : Balanced steps) :
    (∀ front back, steps = front ++ .pop :: back → (r.moves front).pop?.isSome = true) ∧
    (r.moves steps).depth = r.depth ∧ (r.moves steps).outer = r.outer ∧
    (r.moves steps).pivot = r.pivot ∧
    (∀ front inner back, steps = front ++ inner ++ back →
      (∀ start m, start ++ [m] <+: inner → r.depth < (r.moves (front ++ start)).depth) →
        (r.moves (front ++ inner)).scopeAt? r.depth = (r.moves front).scopeAt? r.depth) ∧
    (∀ pivot, r.moves (.push pivot :: steps ++ [.pop]) = r) ∧
    (r.depth = 0 → r.pop? = none ∧ r.move .pop = r) := by
  refine ⟨?_, balanced.depth_eq r, balanced.outer_eq r, balanced.pivot_eq r, ?_, ?_, ?_⟩
  · intro front back split
    exact balanced.pop_isSome r split
  · intro front inner back _ above
    rw [moves_append]
    apply scopeAt?_moves
    intro start m member
    rw [← moves_append]
    exact above start m member
  · intro pivot
    exact balanced.scoped_eq r pivot
  · intro root
    exact r.move_pop_of_root root

/-- Steps with two nested scopes, an alias in each, and a look-up that fails. -/
def nestedSteps : List Move :=
  [.find .column ["orders", "id"], .push (.table (some "shop") "orders"),
    .setAlias "orders" (.element (.table (some "shop") "items")), .find .column ["orders", "id"],
    .push (.table (some "shop") "items"), .setAlias "i" (.table ⟨"i", []⟩), .find .column ["sku"],
    .pop, .pop, .setAlias "o" (.element (.table (some "shop") "orders"))]

/-- The alias of an inner scope hides a table there, and the table is found again afterwards. -/
theorem nested_scopes_isolated_in_shop :
    let orders : Table := ⟨"orders", false, [⟨"id", .integer, false, false, none⟩], []⟩
    let items : Table := ⟨"items", false, [⟨"sku", .string, false, false, none⟩], []⟩
    let r := (new (.ofNamespace ⟨"shop", [orders, items]⟩) (.space "shop")).push (.space "shop")
    Balanced nestedSteps ∧ (r.moves nestedSteps).depth = 1 ∧
      (r.moves nestedSteps).outer = r.outer ∧
      r.moves (.push (.space "shop") :: nestedSteps ++ [.pop]) = r := by
  intro orders items r
  have balanced : Balanced nestedSteps := by decide
  obtain ⟨_, depth, outer, _, _, restored, _⟩ := nested_scopes_isolated r nestedSteps balanced
  exact ⟨balanced, depth, outer, restored (.space "shop")⟩

end SqlFragment.Resolver
