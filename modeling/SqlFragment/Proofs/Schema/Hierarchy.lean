import Mathlib.Data.List.Nodup
import SqlFragment.Hierarchy

/-
What a hierarchy finds. An entry is found by a path that its own path ends in, if it is the entry of
exactly this path or the only one that ends in it: the fold over the entries, which tells only none,
one and more apart, finds the one that a filter leaves. Entries with distinct paths are all kept, so
for them this can be said of the list that a hierarchy is made from.
-/
namespace SqlFragment.Hierarchy
variable {α : Type}

/-- An entry that a path tells apart from the others. -/
def Singles (entries : List (Path × α)) (path : Path) (entry : Path × α) : Prop :=
  entry ∈ entries ∧ path <:+ entry.1 ∧
    (entry.1 = path ∨ ∀ other ∈ entries, path <:+ other.1 → other = entry)

section
variable {path : Path} {a : α} {entries : List (Path × α)} {entry : Path × α}

theorem insertEntry_perm (fresh : path ∉ entries.map Prod.fst) :
    (insertEntry path a entries).Perm ((path, a) :: entries) := by
  induction entries with
  | nil => exact .refl _
  | cons head rest ih =>
    obtain ⟨other, b⟩ := head
    rw [List.map_cons, List.mem_cons, not_or] at fresh
    rw [insertEntry, if_neg fun same => fresh.1 same.symm]
    split
    · exact .refl _
    · exact ((ih fresh.2).cons (other, b)).trans (.swap (path, a) (other, b) rest)

theorem foldl_insert_perm {h : Hierarchy α}
    (distinct : ((h.entries ++ entries).map Prod.fst).Nodup) :
    (entries.foldl (fun h (path, a) => h.insert path a) h).entries.Perm (h.entries ++ entries) := by
  induction entries generalizing h with
  | nil => simp
  | cons head rest ih =>
    obtain ⟨path, a⟩ := head
    have moved : (h.entries ++ (path, a) :: rest).Perm ((path, a) :: (h.entries ++ rest)) :=
      List.perm_middle
    have apart := (moved.map Prod.fst).nodup_iff.mp distinct
    rw [List.map_cons, List.nodup_cons, List.map_append, List.mem_append, not_or] at apart
    have inserted : ((h.insert path a).entries ++ rest).Perm (h.entries ++ (path, a) :: rest) :=
      ((insertEntry_perm apart.1.1).append_right rest).trans moved.symm
    exact (ih ((inserted.map Prod.fst).nodup_iff.mpr distinct)).trans inserted

theorem ofList_perm (distinct : (entries.map Prod.fst).Nodup) :
    (ofList entries).entries.Perm entries :=
  foldl_insert_perm (h := empty) distinct

theorem filter_eq_singleton {β : Type} {xs : List β} {p : β → Bool} {x : β} (distinct : xs.Nodup) :
    xs.filter p = [x] ↔ x ∈ xs ∧ p x = true ∧ ∀ y ∈ xs, p y = true → y = x := by
  constructor
  · intro only
    have members (y : β) : y ∈ xs ∧ p y = true ↔ y = x := by
      rw [← List.mem_filter, only, List.mem_singleton]
    have itself := (members x).mpr rfl
    exact ⟨itself.1, itself.2, fun y mem holds => (members y).mp ⟨mem, holds⟩⟩
  · rintro ⟨mem, holds, only⟩
    have distinct := distinct.filter p
    have kept : x ∈ xs.filter p := List.mem_filter.mpr ⟨mem, holds⟩
    have same : ∀ y ∈ xs.filter p, y = x := fun y kept =>
      only y (List.mem_filter.mp kept).1 (List.mem_filter.mp kept).2
    match found : xs.filter p with
    | [] => simp [found] at kept
    | [y] =>
      rw [found] at same
      rw [same y List.mem_cons_self]
    | y :: z :: rest =>
      rw [found] at same distinct
      have first := same y (by simp)
      have second := same z (by simp)
      simp [first, second] at distinct

theorem zip_all_iff {xs ys : List String} (short : xs.length ≤ ys.length) :
    ((xs.zip ys).all fun (s, t) => s == t) = true ↔ xs <+: ys := by
  induction xs generalizing ys with
  | nil => simp
  | cons x xs ih =>
    cases ys with
    | nil => simp at short
    | cons y ys =>
      rw [List.zip_cons_cons, List.all_cons, Bool.and_eq_true, beq_iff_eq, List.cons_prefix_cons,
        ih (Nat.le_of_succ_le_succ short)]

/-- What is compared backwards and pair by pair is an end of the path. -/
theorem isEndOf_iff {key : Path} : isEndOf path key = true ↔ path <:+ key := by
  rw [isEndOf, Bool.and_eq_true, decide_eq_true_eq, ← List.reverse_prefix]
  constructor
  · rintro ⟨short, same⟩
    exact (zip_all_iff (by simpa using short)).mp same
  · intro front
    have short : path.length ≤ key.length := by simpa using front.length_le
    exact ⟨short, (zip_all_iff (by simpa using short)).mpr front⟩

/-- What is left of a list when it is only counted up to two. -/
def Found.ofList {β : Type} : List β → Found β
  | [] => zero
  | [b] => one b
  | _ => more

theorem Found.another_ofList {β : Type} (bs : List β) (b : β) :
    (ofList bs).another b = ofList (bs ++ [b]) := by
  match bs with
  | [] => rfl
  | [_] => rfl
  | _ :: _ :: _ => rfl

theorem Found.toOption_ofList {β : Type} {bs : List β} {b : β} :
    (ofList bs).toOption = some b ↔ bs = [b] := by
  match bs with
  | [] => simp [ofList, toOption]
  | [_] => simp [ofList, toOption]
  | _ :: _ :: _ => simp [ofList, toOption]

theorem foldl_tally (seen : List (Path × α)) :
    entries.foldl (tally path) (Found.ofList seen) =
      Found.ofList (seen ++ entries.filter fun entry => isEndOf path entry.1) := by
  induction entries generalizing seen with
  | nil => exact congrArg Found.ofList (List.append_nil seen).symm
  | cons head rest ih =>
    rw [List.foldl_cons, tally, List.filter_cons]
    split
    · rw [Found.another_ofList, ih, List.append_assoc, List.singleton_append]
    · exact ih seen

/-- Counting up to two over all entries finds the one whose path is the only one with this end. -/
theorem find?_eq (h : Hierarchy α) (path : Path) :
    h.find? path =
      (h.entries.find? (fun entry => entry.1 = path) <|>
        (Found.ofList (h.entries.filter fun entry => isEndOf path entry.1)).toOption) := by
  have counted : h.entries.foldl (tally path) Found.zero =
      Found.ofList (h.entries.filter fun entry => isEndOf path entry.1) := foldl_tally []
  rw [find?, counted]

theorem find?_eq_some_iff {h : Hierarchy α} (distinct : (h.entries.map Prod.fst).Nodup) :
    h.find? path = some entry ↔ Singles h.entries path entry := by
  rw [find?_eq]
  unfold Singles
  cases found : h.entries.find? fun entry => entry.1 = path with
  | some own =>
    have held := List.mem_of_find?_eq_some found
    obtain rfl : own.1 = path := by simpa using List.find?_some found
    rw [Option.orElse_eq_orElse, Option.orElse_some, Option.some.injEq]
    constructor
    · rintro rfl
      exact ⟨held, List.suffix_refl _, .inl rfl⟩
    · rintro ⟨mem, _, same | only⟩
      · exact List.inj_on_of_nodup_map distinct held mem same.symm
      · exact only own held (List.suffix_refl _)
  | none =>
    have others : ∀ other ∈ h.entries, other.1 ≠ path := by simpa using found
    have single := filter_eq_singleton (x := entry) (p := fun e => isEndOf path e.1)
      (distinct.of_map Prod.fst)
    simp only [isEndOf_iff] at single
    rw [Option.orElse_eq_orElse, Option.orElse_none, Found.toOption_ofList, single]
    constructor
    · rintro ⟨mem, ends, only⟩
      exact ⟨mem, ends, .inr only⟩
    · rintro ⟨mem, ends, own | only⟩
      · exact absurd own (others entry mem)
      · exact ⟨mem, ends, only⟩

theorem Singles.perm {entries' : List (Path × α)} (same : entries.Perm entries') :
    Singles entries path entry ↔ Singles entries' path entry := by
  simp only [Singles, same.mem_iff]

theorem get?_eq_some_iff {h : Hierarchy α} (distinct : (h.entries.map Prod.fst).Nodup) :
    h.get? path = some a ↔ ∃ key, Singles h.entries path (key, a) := by
  simp only [get?, Option.map_eq_some_iff, find?_eq_some_iff distinct]
  constructor
  · rintro ⟨⟨key, b⟩, single, rfl⟩
    exact ⟨key, single⟩
  · rintro ⟨key, single⟩
    exact ⟨(key, a), single, rfl⟩

/-- What is found among entries with distinct paths. -/
theorem get?_ofList (distinct : (entries.map Prod.fst).Nodup) :
    (ofList entries).get? path = some a ↔ ∃ key, Singles entries path (key, a) := by
  have kept := ofList_perm distinct
  have distinct' := (kept.map Prod.fst).nodup_iff.mpr distinct
  rw [get?_eq_some_iff distinct']
  exact exists_congr fun key => Singles.perm kept

end

end SqlFragment.Hierarchy
