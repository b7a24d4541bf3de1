import SqlFragment.Dialect.Basic

/-
Names of parameters. Every dialect has a well formed name for every parameter, and one that is not
taken: the name itself, or the name with the least number that is free. So normalizing a name never
fails.
-/
namespace SqlFragment

namespace Naming
variable {name : String} {existing : List String}

theorem toString_injective {i j : Nat} (same : toString i = toString j) : i = j := by
  have digits : Nat.toDigits 10 i = Nat.toDigits 10 j := by
    simpa only [Nat.toString_eq_repr, Nat.toList_repr] using congrArg String.toList same
  have values := congrArg (fun cs => Nat.ofDigitChars 10 cs 0) digits
  simpa using values

theorem numbered_injective {i j : Nat} (same : numbered name i = numbered name j) : i = j := by
  unfold numbered at same
  split at same
  · exact toString_injective same
  · have lists : (name ++ "_").toList ++ (toString i).toList =
        (name ++ "_").toList ++ (toString j).toList := by
      simpa only [String.toList_append] using congrArg String.toList same
    exact toString_injective (String.toList_inj.mp (List.append_cancel_left lists))

/-- There are more numbers than names in use. -/
theorem exists_numbered_not_mem (name : String) (existing : List String) :
    ∃ i ≤ existing.length, numbered name i ∉ existing := by
  apply Classical.byContradiction
  intro none
  have within : (List.range (existing.length + 1)).map (numbered name) ⊆ existing := by
    intro candidate mem
    obtain ⟨i, small, rfl⟩ := List.mem_map.mp mem
    apply Classical.byContradiction
    intro free
    exact none ⟨i, Nat.le_of_lt_succ (List.mem_range.mp small), free⟩
  have distinct : ((List.range (existing.length + 1)).map (numbered name)).Nodup := by
    rw [List.Nodup, List.pairwise_map]
    refine List.nodup_range.imp ?_
    intro i j other same
    exact other (numbered_injective same)
  have counted := distinct.length_le_of_subset within
  rw [List.length_map, List.length_range] at counted
  omega

theorem fresh_of_not_mem (visible : name.isEmpty = false) (free : name ∉ existing) :
    fresh name existing = name := by
  simp [fresh, visible, free]

/-- A name in use gets the least number that is free, at most the count of names in use. -/
theorem fresh_of_mem (used : name ∈ existing) :
    ∃ i ≤ existing.length, fresh name existing = numbered name i ∧
      numbered name i ∉ existing ∧ ∀ j < i, numbered name j ∈ existing := by
  obtain ⟨free, small, unused⟩ := exists_numbered_not_mem name existing
  have some : ((List.range (existing.length + 1)).find?
      ((fun candidate => !existing.contains candidate) ∘ numbered name)).isSome := by
    rw [List.find?_isSome]
    exact ⟨free, List.mem_range.mpr (Nat.lt_succ_of_le small), by simpa using unused⟩
  obtain ⟨i, found⟩ := Option.isSome_iff_exists.mp some
  have least := List.find?_range_eq_some.mp found
  refine ⟨i, Nat.le_of_lt_succ (List.mem_range.mp least.2.1), ?_, by simpa using least.1, ?_⟩
  · simp only [fresh, used, List.contains_eq_mem, decide_true, Bool.not_true, Bool.and_false,
      Bool.false_eq_true, ↓reduceIte, List.find?_map] at found ⊢
    rw [found, Option.map_some, Option.getD_some]
  · intro j before
    simpa using least.2.2 j before

end Naming

namespace Dialect
variable (d : Dialect)

theorem isParameterPart_underscore : d.isParameterPart '_' = true := by
  cases d <;> simp [isParameterPart, isSigil, isIdentifierPart, isIdentifierStart]

theorem isParameterPart_of_isDigit {c : Char} (digit : c.isDigit = true) :
    d.isParameterPart c = true := by
  have plain : isSigil c = false := by
    rw [Char.isDigit_iff_toNat] at digit
    have codes : '0'.toNat = 48 ∧ '9'.toNat = 57 := ⟨rfl, rfl⟩
    have other (s : Char) (away : s.toNat < 48 ∨ 57 < s.toNat) : (c == s) = false := by
      rw [beq_eq_false_iff_ne]
      rintro rfl
      omega
    simp only [isSigil, other '$' (by decide), other '@' (by decide), other '#' (by decide),
      other ':' (by decide), other '?' (by decide), Bool.or_self]
  cases d <;> simp [isParameterPart, plain, isIdentifierPart, digit]

theorem isParameterStart_p : d.isParameterStart 'p' = true := by
  have letter : Text.isAlphabetic 'p' = true := Text.isAlphabetic_of_isAlpha (by decide)
  cases d <;> simp [isParameterStart, isSigil, isIdentifierStart, letter]

theorem isParameterName_ofList {c : Char} {cs : List Char} :
    d.isParameterName (String.ofList (c :: cs)) = true ↔
      d.isParameterStart c = true ∧ ∀ x ∈ cs, d.isParameterPart x = true := by
  simp [isParameterName]

theorem isParameterName_sanitize (name : String) :
    d.isParameterName (Naming.sanitize name d.isParameterStart d.isParameterPart) = true := by
  have parts : ∀ x ∈ name.toList.map (fun c => if d.isParameterPart c then c else '_'),
      d.isParameterPart x = true := by
    intro x mem
    obtain ⟨c, _, rfl⟩ := List.mem_map.mp mem
    split
    · assumption
    · exact d.isParameterPart_underscore
  simp only [Naming.sanitize]
  generalize name.toList.map (fun c => if d.isParameterPart c then c else '_') = cs at parts ⊢
  cases cs with
  | nil => exact d.isParameterName_ofList.mpr ⟨d.isParameterStart_p, nofun⟩
  | cons c cs =>
    simp only
    split
    · rename_i start
      exact d.isParameterName_ofList.mpr ⟨start, fun x mem => parts x (List.mem_cons_of_mem c mem)⟩
    · exact d.isParameterName_ofList.mpr ⟨d.isParameterStart_p, parts⟩

theorem isEmpty_of_isParameterName {name : String} (valid : d.isParameterName name = true) :
    name.isEmpty = false := by
  cases empty : name.isEmpty with
  | false => rfl
  | true =>
    rw [String.isEmpty_iff.mp empty] at valid
    cases valid

theorem numbered_of_isParameterName {name : String} (valid : d.isParameterName name = true)
    (i : Nat) : Naming.numbered name i = name ++ "_" ++ toString i := by
  rw [Naming.numbered, d.isEmpty_of_isParameterName valid]
  rfl

theorem isParameterName_numbered {name : String} (valid : d.isParameterName name = true) (i : Nat) :
    d.isParameterName (Naming.numbered name i) = true := by
  cases chars : name.toList with
  | nil => simp [isParameterName, chars] at valid
  | cons c cs =>
    obtain ⟨start, parts⟩ := d.isParameterName_ofList.mp (by rw [← chars]; simpa using valid)
    have written : Naming.numbered name i =
        String.ofList (c :: (cs ++ '_' :: Nat.toDigits 10 i)) := by
      rw [d.numbered_of_isParameterName valid]
      apply String.toList_inj.mp
      simp [chars, Nat.toString_eq_repr, Nat.toList_repr]
    rw [written, isParameterName_ofList]
    refine ⟨start, ?_⟩
    intro x mem
    rcases List.mem_append.mp mem with front | back
    · exact parts x front
    · rcases List.mem_cons.mp back with rfl | digit
      · exact d.isParameterPart_underscore
      · exact d.isParameterPart_of_isDigit (Nat.isDigit_of_mem_toDigits (by omega) (by omega) digit)

theorem fresh_of_isParameterName {name : String} (valid : d.isParameterName name = true)
    (taken : List String) :
    d.isParameterName (Naming.fresh name taken) = true ∧ Naming.fresh name taken ∉ taken ∧
      ((name ∉ taken ∧ Naming.fresh name taken = name) ∨
        (name ∈ taken ∧ ∃ i ≤ taken.length, Naming.fresh name taken = name ++ "_" ++ toString i ∧
          ∀ j < i, name ++ "_" ++ toString j ∈ taken)) := by
  by_cases used : name ∈ taken
  · obtain ⟨i, small, numbered, free, least⟩ := Naming.fresh_of_mem used
    have proper := d.isParameterName_numbered valid i
    rw [numbered]
    simp only [d.numbered_of_isParameterName valid] at proper free least ⊢
    exact ⟨proper, free, .inr ⟨used, i, small, rfl, least⟩⟩
  · rw [Naming.fresh_of_not_mem (d.isEmpty_of_isParameterName valid) used]
    exact ⟨valid, used, .inl ⟨used, rfl⟩⟩

theorem normalizeName_eq (name : String) (taken : List String) :
    d.normalizeName name taken =
      .ok (Naming.fresh (Naming.sanitize name d.isParameterStart d.isParameterPart) taken) := by
  have valid := (d.fresh_of_isParameterName (d.isParameterName_sanitize name) taken).1
  simp only [normalizeName, valid, ↓reduceIte]

theorem normalizeName_spec (name : String) (taken : List String) :
    ∃ normalized, d.normalizeName name taken = .ok normalized ∧ normalized ∉ taken :=
  ⟨_, d.normalizeName_eq name taken,
    (d.fresh_of_isParameterName (d.isParameterName_sanitize name) taken).2.1⟩

theorem isParameterPart_of_isParameterStart {c : Char} (start : d.isParameterStart c = true) :
    d.isParameterPart c = true := by
  simp only [isParameterStart, isParameterPart, Bool.and_eq_true] at start ⊢
  refine ⟨start.1, ?_⟩
  cases d <;> grind [isIdentifierStart, isIdentifierPart]

theorem sanitize_of_isParameterName {name : String} (valid : d.isParameterName name = true) :
    Naming.sanitize name d.isParameterStart d.isParameterPart = name := by
  cases chars : name.toList with
  | nil => simp [isParameterName, chars] at valid
  | cons c cs =>
    obtain ⟨start, parts⟩ := d.isParameterName_ofList.mp (by rw [← chars]; simpa using valid)
    have kept : cs.map (fun x => if d.isParameterPart x then x else '_') = cs := by
      refine (List.map_congr_left ?_).trans (List.map_id cs)
      intro x mem
      rw [if_pos (parts x mem), id]
    apply String.toList_inj.mp
    simp [Naming.sanitize, chars, kept, d.isParameterPart_of_isParameterStart start, start]

/-- Every name has a well formed name that is not taken: the sanitized name, when it is free, else
the sanitized name with the least number that is free, found among the first ones. A name that is
well formed is its own sanitized name. -/
theorem normalizeName_first_free (name : String) (taken : List String) :
    let clean := Naming.sanitize name d.isParameterStart d.isParameterPart
    (d.isParameterName name = true → clean = name) ∧
      ∃ normalized, d.normalizeName name taken = .ok normalized ∧
        d.isParameterName normalized = true ∧ normalized ∉ taken ∧
        ((clean ∉ taken ∧ normalized = clean) ∨
          (clean ∈ taken ∧ ∃ i ≤ taken.length, normalized = clean ++ "_" ++ toString i ∧
            ∀ j < i, clean ++ "_" ++ toString j ∈ taken)) :=
  ⟨d.sanitize_of_isParameterName, _, d.normalizeName_eq name taken,
    d.fresh_of_isParameterName (d.isParameterName_sanitize name) taken⟩

end Dialect
end SqlFragment
