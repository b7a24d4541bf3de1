import Mathlib.Data.List.Dedup
import SqlFragment.Proofs.Schema.Hierarchy

/-
Looking up the end of a path among entries whose paths may repeat. The last entry of a path replaces
the ones before it, and a hierarchy holds what is left in the order of the paths, so the order in
which distinct paths were given is lost. Main statement: a path finds the object given last for it
or, if there is none, the one given last for the only path that ends in it.
-/
namespace SqlFragment.Hierarchy
variable {α : Type}

/-- The object of the last entry of a path. -/
def latest? (entries : List (Path × α)) (key : Path) : Option α := entries.reverse.lookup key

/-- Of the paths of the entries, only `key` ends in `path`. -/
def OnlyEnding (entries : List (Path × α)) (path key : Path) : Prop :=
  key ∈ entries.map Prod.fst ∧ path <:+ key ∧
    ∀ other ∈ entries.map Prod.fst, path <:+ other → other = key

instance (entries : List (Path × α)) (path key : Path) : Decidable (OnlyEnding entries path key) :=
  inferInstanceAs (Decidable (_ ∧ _ ∧ _))

/-- Paths ascend from each entry to the next, so none is there twice. -/
def Ascending (entries : List (Path × α)) : Prop := entries.Pairwise fun x y => x.1 < y.1

section
variable {path key : Path} {a : α} {entries : List (Path × α)} {entry : Path × α}

theorem Ascending.nodup_keys (ascending : Ascending entries) : (entries.map Prod.fst).Nodup := by
  rw [List.Nodup, List.pairwise_map]
  refine List.Pairwise.imp (fun {x y} less same => ?_) ascending
  rw [same] at less
  exact List.lt_irrefl y.1 less

theorem mem_of_mem_insertEntry (mem : entry ∈ insertEntry path a entries) :
    entry = (path, a) ∨ entry ∈ entries := by
  induction entries with
  | nil => exact .inl (List.mem_singleton.mp mem)
  | cons head rest ih =>
    obtain ⟨other, b⟩ := head
    rw [insertEntry] at mem
    split at mem
    · rcases List.mem_cons.mp mem with own | later
      · exact .inl own
      · exact .inr (List.mem_cons_of_mem _ later)
    · split at mem
      · exact List.mem_cons.mp mem
      · rcases List.mem_cons.mp mem with first | later
        · exact .inr (first ▸ List.mem_cons_self)
        · exact (ih later).imp_right (List.mem_cons_of_mem _)

theorem Ascending.insertEntry (ascending : Ascending entries) :
    Ascending (insertEntry path a entries) := by
  induction entries with
  | nil => exact List.pairwise_singleton _ _
  | cons head rest ih =>
    obtain ⟨other, b⟩ := head
    obtain ⟨above, later⟩ := List.pairwise_cons.mp ascending
    rw [Hierarchy.insertEntry]
    split
    · rename_i same
      exact List.pairwise_cons.mpr ⟨fun entry mem => same ▸ above entry mem, later⟩
    · rename_i different
      split
      · rename_i less
        refine List.pairwise_cons.mpr ⟨fun entry mem => ?_, ascending⟩
        rcases List.mem_cons.mp mem with rfl | mem
        · exact less
        · exact List.lt_trans less (above entry mem)
      · rename_i notLess
        have less : other < path :=
          (List.le_iff_lt_or_eq.mp (List.not_lt.mp notLess)).resolve_right different
        refine List.pairwise_cons.mpr ⟨fun entry mem => ?_, ih later⟩
        rcases mem_of_mem_insertEntry mem with rfl | mem
        · exact less
        · exact above entry mem

theorem ascending_ofList (entries : List (Path × α)) : Ascending (ofList entries).entries :=
  List.foldlRecOn (motive := fun h : Hierarchy α => Ascending h.entries) entries _ .nil
    fun _ ascending _ _ => ascending.insertEntry

theorem nodup_keys_ofList (entries : List (Path × α)) :
    ((ofList entries).entries.map Prod.fst).Nodup :=
  (ascending_ofList entries).nodup_keys

theorem lookup_cons_entry {other : Path} {b : α} {rest : List (Path × α)} :
    ((other, b) :: rest).lookup key = if key = other then some b else rest.lookup key := by
  rw [List.lookup_cons]
  by_cases own : key = other
  · rw [if_pos own, beq_iff_eq.mpr own]
  · rw [if_neg own, beq_eq_false_iff_ne.mpr own]

-- This needs no order: the entry is put before any other of its path, or in its place.
theorem lookup_insertEntry :
    (insertEntry path a entries).lookup key = if key = path then some a else entries.lookup key := by
  induction entries with
  | nil => rw [insertEntry, lookup_cons_entry]
  | cons head rest ih =>
    obtain ⟨other, b⟩ := head
    rw [insertEntry]
    split
    · rename_i same
      subst same
      by_cases own : key = other <;> simp only [lookup_cons_entry, own, ↓reduceIte]
    · rename_i different
      split
      · rw [lookup_cons_entry]
      · rw [lookup_cons_entry, ih, lookup_cons_entry]
        by_cases first : key = other
        · simp only [first, different, ↓reduceIte]
        · simp only [first, ↓reduceIte]

theorem lookup_foldl_insert {h : Hierarchy α} :
    (entries.foldl (fun h (path, a) => h.insert path a) h).entries.lookup key =
      (latest? entries key).or (h.entries.lookup key) := by
  induction entries generalizing h with
  | nil => rfl
  | cons head rest ih =>
    obtain ⟨path, a⟩ := head
    rw [List.foldl_cons, ih]
    simp only [Hierarchy.insert, lookup_insertEntry, latest?, List.reverse_cons, List.lookup_append,
      lookup_cons_entry, Option.or_assoc, List.lookup_nil]
    by_cases own : key = path <;> simp only [own, ↓reduceIte, Option.some_or, Option.none_or]

theorem lookup_ofList : (ofList entries).entries.lookup key = latest? entries key := by
  rw [ofList, lookup_foldl_insert, empty, List.lookup_nil, Option.or_none]

theorem lookup_eq_some_iff_mem (distinct : (entries.map Prod.fst).Nodup) :
    entries.lookup key = some a ↔ (key, a) ∈ entries := by
  constructor
  · intro found
    obtain ⟨before, after, rfl, _⟩ := List.lookup_eq_some_iff.mp found
    exact List.mem_append_right _ List.mem_cons_self
  · intro mem
    obtain ⟨before, after, rfl⟩ := List.append_of_mem mem
    rw [List.map_append, List.map_cons] at distinct
    have fresh : key ∉ before.map Prod.fst := fun held =>
      (List.disjoint_of_nodup_append distinct) held List.mem_cons_self
    refine List.lookup_eq_some_iff.mpr ⟨before, after, rfl, fun other held => bne_iff_ne.mpr ?_⟩
    rintro rfl
    exact fresh (List.mem_map_of_mem held)

theorem mem_ofList : (key, a) ∈ (ofList entries).entries ↔ latest? entries key = some a := by
  rw [← lookup_eq_some_iff_mem (nodup_keys_ofList entries), lookup_ofList]

theorem lookup_isSome : (entries.lookup key).isSome ↔ key ∈ entries.map Prod.fst := by
  simp [List.lookup_isSome_iff]

theorem mem_keys_ofList :
    key ∈ (ofList entries).entries.map Prod.fst ↔ key ∈ entries.map Prod.fst := by
  rw [← lookup_isSome, lookup_ofList, latest?, lookup_isSome, List.map_reverse, List.mem_reverse]

/-- Every path that something is given for is held, and only once. -/
theorem keys_ofList_perm (entries : List (Path × α)) :
    ((ofList entries).entries.map Prod.fst).Perm (entries.map Prod.fst).dedup := by
  refine (List.perm_ext_iff_of_nodup (nodup_keys_ofList entries) (List.nodup_dedup _)).mpr ?_
  intro key
  rw [mem_keys_ofList, List.mem_dedup]

theorem matching_ofList :
    (ofList entries).matching path =
      ((entries.map Prod.fst).dedup.filter fun key => path.isSuffixOf key).length := by
  have ends (key : Path) : isEndOf path key = path.isSuffixOf key := by
    rw [Bool.eq_iff_iff, isEndOf_iff, List.isSuffixOf_iff_suffix]
  simp only [matching, ends, ((keys_ofList_perm entries).filter _).length_eq]

theorem matching_eq_one_iff :
    (ofList entries).matching path = 1 ↔ ∃ key, OnlyEnding entries path key := by
  rw [matching_ofList, List.length_eq_one_iff]
  refine exists_congr fun key => ?_
  rw [filter_eq_singleton (List.nodup_dedup _)]
  simp only [OnlyEnding, List.mem_dedup, List.isSuffixOf_iff_suffix]

theorem ofList_eq_of_perm {entries' : List (Path × α)} (distinct : (entries.map Prod.fst).Nodup)
    (same : entries'.Perm entries) : ofList entries' = ofList entries := by
  have distinct' : (entries'.map Prod.fst).Nodup := (same.map Prod.fst).nodup_iff.mpr distinct
  have held : (ofList entries').entries.Perm (ofList entries).entries :=
    (ofList_perm distinct').trans (same.trans (ofList_perm distinct).symm)
  -- Both sides ascend, and what ascends is told by its members.
  have equal : (ofList entries').entries = (ofList entries).entries :=
    held.eq_of_pairwise (fun _ _ _ _ less more => absurd more (List.lt_asymm less))
      (ascending_ofList entries') (ascending_ofList entries)
  exact congrArg Hierarchy.mk equal

theorem singles_ofList_iff :
    (∃ key, Singles (ofList entries).entries path (key, a)) ↔
      latest? entries path = some a ∨
        path ∉ entries.map Prod.fst ∧
          ∃ key, OnlyEnding entries path key ∧ latest? entries key = some a := by
  have distinct := nodup_keys_ofList entries
  constructor
  · rintro ⟨key, held, ends, own | only⟩
    · cases own
      exact .inl (mem_ofList.mp held)
    · by_cases given : path ∈ entries.map Prod.fst
      · -- The path itself ends in it, so its entry is the only one.
        obtain ⟨⟨_, b⟩, held', rfl⟩ := List.mem_map.mp (mem_keys_ofList.mpr given)
        cases only _ held' (List.suffix_refl _)
        exact .inl (mem_ofList.mp held)
      · refine .inr ⟨given, key, ⟨?_, ends, ?_⟩, mem_ofList.mp held⟩
        · exact mem_keys_ofList.mp (List.mem_map_of_mem held)
        · intro other mem ends'
          obtain ⟨entry, held', rfl⟩ := List.mem_map.mp (mem_keys_ofList.mpr mem)
          exact congrArg Prod.fst (only entry held' ends')
  · rintro (own | ⟨_, key, ⟨_, ends, only⟩, given⟩)
    · exact ⟨path, mem_ofList.mpr own, List.suffix_refl _, .inl rfl⟩
    · have held := mem_ofList.mpr given
      refine ⟨key, held, ends, .inr fun other held' ends' => ?_⟩
      have same : other.1 = key := only _ (mem_keys_ofList.mp (List.mem_map_of_mem held')) ends'
      exact List.inj_on_of_nodup_map distinct held' held same

/-- A path finds the object given last for it or, if it is not given, the one given last for the only
path that ends in it. Just one path is then counted, as whenever only one ends in it, and the order of
entries with distinct paths changes neither answer. -/
theorem found_iff_unambiguous (entries : List (Path × α)) (path : Path) :
    (∀ a, (ofList entries).get? path = some a ↔
      latest? entries path = some a ∨
        path ∉ entries.map Prod.fst ∧
          ∃ key, OnlyEnding entries path key ∧ latest? entries key = some a) ∧
    ((ofList entries).matching path = 1 ↔ ∃ key, OnlyEnding entries path key) ∧
    ((entries.map Prod.fst).Nodup → ∀ entries' : List (Path × α), entries'.Perm entries →
      (ofList entries').get? path = (ofList entries).get? path ∧
      (ofList entries').matching path = (ofList entries).matching path) := by
  refine ⟨fun a => ?_, matching_eq_one_iff, fun distinct entries' same => ?_⟩
  · rw [get?_eq_some_iff (nodup_keys_ofList entries), singles_ofList_iff]
  · rw [ofList_eq_of_perm distinct same]
    exact ⟨rfl, rfl⟩

end

/-- One path is given twice and is also the end of a longer one. -/
def shelves : List (Path × Nat) :=
  [(["shop", "orders"], 1), (["audit", "orders"], 2), (["old", "shop", "orders"], 3),
    (["shop", "customers"], 4), (["shop", "orders"], 5)]

theorem found_shelves :
    (ofList shelves).get? ["shop", "orders"] = some 5 ∧
    (ofList shelves).get? ["customers"] = some 4 ∧
    (ofList shelves).matching ["customers"] = 1 ∧
    (shelves.tail.map Prod.fst).Nodup ∧
    (ofList shelves.tail.reverse).get? ["orders"] = (ofList shelves.tail).get? ["orders"] := by
  have distinct : (shelves.tail.map Prod.fst).Nodup := by decide
  have sole : OnlyEnding shelves ["customers"] ["shop", "customers"] := by decide
  obtain ⟨found, counted, _⟩ := found_iff_unambiguous shelves ["customers"]
  obtain ⟨_, _, unordered⟩ := found_iff_unambiguous shelves.tail ["orders"]
  refine ⟨((found_iff_unambiguous shelves ["shop", "orders"]).1 5).mpr (.inl ?_),
    (found 4).mpr (.inr ⟨?_, _, sole, ?_⟩), counted.mpr ⟨_, sole⟩, distinct,
    (unordered distinct _ (List.reverse_perm _)).1⟩
  · decide
  · decide
  · decide

end SqlFragment.Hierarchy
