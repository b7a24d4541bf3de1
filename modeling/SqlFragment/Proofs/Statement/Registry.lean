import SqlFragment.Proofs.Statement.Parameters

/-
The record of parameters against the list of the names that occurred: the distinct names in the
order of their first occurrences, numbered from one, each with the indices at which it occurred.
-/
namespace SqlFragment

/-- The indices at which a name stands, increasing. -/
def places (names : List String) (name : String) : List Nat :=
  (List.range names.length).filter fun i => names[i]? = some name

theorem mem_places {names : List String} {name : String} {i : Nat} :
    i ∈ places names name ↔ names[i]? = some name := by
  simp only [places, List.mem_filter, List.mem_range, decide_eq_true_eq, and_iff_right_iff_imp]
  intro found
  exact (List.getElem?_eq_some_iff.mp found).1

theorem nodup_places (names : List String) (name : String) : (places names name).Nodup :=
  List.nodup_range.filter _

theorem places_eq_nil {names : List String} {name : String} (absent : name ∉ names) :
    places names name = [] := by
  rw [List.eq_nil_iff_forall_not_mem]
  intro i mem
  exact absent (List.mem_of_getElem? (mem_places.mp mem))

theorem places_concat (names : List String) (last name : String) :
    places (names ++ [last]) name =
      places names name ++ if last = name then [names.length] else [] := by
  have before : ∀ i ∈ List.range names.length,
      decide ((names ++ [last])[i]? = some name) = decide (names[i]? = some name) := by
    intro i mem
    rw [List.getElem?_append_left (List.mem_range.mp mem)]
  rw [places, List.length_append, List.length_singleton, List.range_succ, List.filter_append,
    List.filter_congr before]
  by_cases same : last = name <;> simp [places, same]

namespace Expr
variable {α : Type} [DecidableEq α]

theorem firsts_concat (xs : List α) (x : α) :
    firsts (xs ++ [x]) = if x ∈ firsts xs then firsts xs else firsts xs ++ [x] := by
  rw [firsts, List.foldl_append]
  rfl

theorem mem_foldl_firsts (xs seen : List α) (x : α) :
    x ∈ xs.foldl (fun seen x => if x ∈ seen then seen else seen ++ [x]) seen ↔
      x ∈ seen ∨ x ∈ xs := by
  induction xs generalizing seen with
  | nil => simp
  | cons y xs ih =>
    rw [List.foldl_cons, ih]
    split <;> grind

theorem nodup_foldl_firsts (xs : List α) {seen : List α} (nodup : seen.Nodup) :
    (xs.foldl (fun seen x => if x ∈ seen then seen else seen ++ [x]) seen).Nodup := by
  induction xs generalizing seen with
  | nil => exact nodup
  | cons y xs ih =>
    rw [List.foldl_cons]
    refine ih ?_
    split <;> grind

theorem mem_firsts {xs : List α} {x : α} : x ∈ firsts xs ↔ x ∈ xs := by
  rw [firsts, mem_foldl_firsts]
  simp

theorem nodup_firsts (xs : List α) : (firsts xs).Nodup := nodup_foldl_firsts xs List.nodup_nil

end Expr

namespace Parameters

/-- What a placeholder is made of: the names with those they are written with and their ordinals. -/
def written (p : Parameters) : List (String × String × Nat) :=
  p.entries.map fun entry => (entry.1, entry.2.normalizedName, entry.2.ordinal)

theorem length_written (p : Parameters) : p.written.length = p.size := List.length_map _

theorem normalizedNames_eq (p : Parameters) : p.normalizedNames = p.written.map (·.2.1) := by
  rw [written, List.map_map]
  rfl

theorem get?_eq_none {p : Parameters} {name : String} :
    p.get? name = none ↔ ¬∃ entry ∈ p.entries, entry.1 = name := by
  simp only [get?, Option.map_eq_none_iff, List.find?_eq_none, decide_eq_true_eq, not_exists,
    not_and]

theorem mem_of_get? {p : Parameters} {name : String} {d : Descriptor} (held : p.get? name = some d) :
    (name, d) ∈ p.entries := by
  obtain ⟨entry, found, rfl⟩ := Option.map_eq_some_iff.mp held
  have same := List.find?_some found
  rw [← of_decide_eq_true same]
  exact List.mem_of_find?_eq_some found

theorem forall_mem_modify {p : Parameters} {name : String} {f : Descriptor → Descriptor}
    {P : String × Descriptor → Prop} (changed : ∀ d, (name, d) ∈ p.entries → P (name, f d))
    (others : ∀ entry ∈ p.entries, entry.1 ≠ name → P entry) :
    ∀ entry ∈ (p.modify name f).entries, P entry := by
  intro entry mem
  obtain ⟨⟨n, d⟩, held, rfl⟩ := List.mem_map.mp mem
  by_cases same : n = name
  · subst same
    simpa using changed d held
  · simpa [same] using others (n, d) held same

theorem written_modify (p : Parameters) (name : String) {f : Descriptor → Descriptor}
    (named : ∀ d, (f d).normalizedName = d.normalizedName)
    (numbered : ∀ d, (f d).ordinal = d.ordinal) : (p.modify name f).written = p.written := by
  simp only [modify, written, List.map_map]
  refine List.map_congr_left fun entry _ => ?_
  by_cases same : entry.1 = name <;> simp [same, named, numbered]

/-- The names are numbered from one and written with different names. -/
structure Numbers (written : List (String × String × Nat)) (distinct : List String) : Prop where
  names : written.map (·.1) = distinct
  normalized : (written.map (·.2.1)).Nodup
  ordinals : written.map (·.2.2) = List.range' 1 written.length

/-- The parameters are the distinct ones of a list of names, with the places at which they stand. -/
structure Records (p : Parameters) (distinct occurred : List String) : Prop extends
    Numbers p.written distinct where
  positions : ∀ entry ∈ p.entries, entry.2.positions = places occurred entry.1
  occurrences : p.occurrences = occurred.length

theorem records_empty : Records {} [] [] where
  names := rfl
  normalized := List.nodup_nil
  ordinals := rfl
  positions := by simp
  occurrences := rfl

variable {p : Parameters} {distinct occurred : List String} {name normalized : String}

theorem Records.mem_iff (records : p.Records distinct occurred) :
    name ∈ distinct ↔ ∃ entry ∈ p.entries, entry.1 = name := by
  rw [← records.names]
  simp [written]

theorem Records.enter (records : p.Records (Expr.firsts occurred) occurred)
    (free : p.get? name = none → normalized ∉ p.normalizedNames) :
    (p.enter name normalized).2.Records (Expr.firsts (occurred ++ [name])) occurred := by
  unfold Parameters.enter
  rw [Expr.firsts_concat]
  cases held : p.get? name with
  | some descriptor =>
    have known : name ∈ Expr.firsts occurred :=
      records.mem_iff.mpr ⟨_, mem_of_get? held, rfl⟩
    rw [if_pos known]
    exact records
  | none =>
    have new : name ∉ Expr.firsts occurred := by
      rw [records.mem_iff]
      exact get?_eq_none.mp held
    rw [if_neg new]
    -- one more entry, after those that were there
    let descriptor : Descriptor := { normalizedName := normalized, ordinal := p.size + 1 }
    let q : Parameters := { p with entries := p.entries ++ [(name, descriptor)] }
    have grown : q.written = p.written ++ [(name, normalized, p.size + 1)] := by
      simp [q, descriptor, written]
    refine ⟨⟨?_, ?_, ?_⟩, ?_, records.occurrences⟩
    · rw [grown, List.map_append, records.names]
      rfl
    · have before := records.normalized
      rw [grown, List.map_append, ← normalizedNames_eq, List.map_singleton, List.nodup_append]
      rw [← normalizedNames_eq] at before
      refine ⟨before, List.pairwise_singleton _ _, ?_⟩
      rintro a mem b last rfl
      rw [List.mem_singleton.mp last] at mem
      exact free held mem
    · rw [grown, List.map_append, records.ordinals, List.length_append, List.length_singleton,
        List.range'_concat, length_written, Nat.one_mul, Nat.add_comm 1]
      rfl
    · intro entry mem
      rcases List.mem_append.mp mem with before | last
      · exact records.positions entry before
      · rw [List.mem_singleton.mp last, places_eq_nil (mt Expr.mem_firsts.mpr new)]

theorem forall_mem_note {P : String × Descriptor → Prop}
    (changed : ∀ d, (name, d) ∈ (p.enter name normalized).2.entries →
      P (name, { d with positions := d.positions ++ [p.occurrences] }))
    (others : ∀ entry ∈ (p.enter name normalized).2.entries, entry.1 ≠ name → P entry) :
    ∀ entry ∈ (p.note name normalized).entries, P entry :=
  forall_mem_modify changed others

theorem written_note (p : Parameters) (name normalized : String) :
    (p.note name normalized).written = (p.enter name normalized).2.written :=
  written_modify (f := fun d => { d with positions := d.positions ++ [p.occurrences] }) _ name
    (fun _ => rfl) fun _ => rfl

/-- How a name is written is not changed later on. -/
theorem written_subset_note (p : Parameters) (name normalized : String) :
    p.written ⊆ (p.note name normalized).written := by
  rw [written_note]
  unfold Parameters.enter
  split
  · exact List.Subset.refl _
  · exact List.map_subset _ (List.subset_append_left _ _)

theorem mem_written_note (p : Parameters) (name normalized : String) :
    (name, (p.enter name normalized).1.normalizedName, (p.enter name normalized).1.ordinal) ∈
      (p.note name normalized).written := by
  rw [written_note]
  unfold Parameters.enter
  cases held : p.get? name with
  | some descriptor => exact List.mem_map_of_mem (mem_of_get? held)
  | none => simp [written]

theorem Records.note (records : p.Records (Expr.firsts occurred) occurred)
    (free : p.get? name = none → normalized ∉ p.normalizedNames) :
    (p.note name normalized).Records (Expr.firsts (occurred ++ [name])) (occurred ++ [name]) := by
  have entered := records.enter free
  refine ⟨?_, ?_, ?_⟩
  · rw [written_note]
    exact entered.toNumbers
  · refine forall_mem_note (fun d held => ?_) fun entry held different => ?_
    · rw [places_concat, if_pos rfl, ← records.occurrences, ← entered.positions (name, d) held]
    · rw [places_concat, if_neg (Ne.symm different), List.append_nil]
      exact entered.positions entry held
  · rw [List.length_append, ← records.occurrences]
    rfl

theorem written_setDefault (p : Parameters) (name : String) (e : Expr) :
    (p.modify name fun d => { d with default := some e }).written = p.written :=
  p.written_modify (f := fun d => { d with default := some e }) name (fun _ => rfl) fun _ => rfl

theorem Records.setDefault (records : p.Records distinct occurred) (name : String) (e : Expr) :
    (p.modify name fun d => { d with default := some e }).Records distinct occurred := by
  refine ⟨?_, ?_, records.occurrences⟩
  · rw [written_setDefault]
    exact records.toNumbers
  · exact forall_mem_modify (fun d held => records.positions (name, d) held) fun entry held _ =>
      records.positions entry held

def Defaults (p : Parameters) (table : List (String × Expr)) : Prop :=
  ∀ entry ∈ p.entries, entry.2.default = table.lookup entry.1

theorem Defaults.note {table : List (String × Expr)} (defaults : p.Defaults table)
    (unset : p.get? name = none → table.lookup name = none) :
    (p.note name normalized).Defaults table := by
  have entered : (p.enter name normalized).2.Defaults table := by
    unfold Parameters.enter
    cases held : p.get? name with
    | some descriptor => exact defaults
    | none =>
      intro entry mem
      rcases List.mem_append.mp mem with before | last
      · exact defaults entry before
      · rw [List.mem_singleton.mp last]
        exact (unset held).symm
  exact forall_mem_note (fun d held => entered (name, d) held) fun entry held _ =>
    entered entry held

theorem Defaults.setDefault {table : List (String × Expr)} (defaults : p.Defaults table)
    (name : String) (e : Expr) :
    (p.modify name fun d => { d with default := some e }).Defaults ((name, e) :: table) := by
  refine forall_mem_modify (fun d _ => ?_) fun entry held different => ?_
  · rw [List.lookup_cons_self]
  · rw [List.lookup_cons, beq_eq_false_iff_ne.mpr different]
    exact defaults entry held

end Parameters
end SqlFragment
