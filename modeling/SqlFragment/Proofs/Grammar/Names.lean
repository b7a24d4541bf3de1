import SqlFragment.Proofs.Grammar.Literal

/-
Names, paths and parameters: what the rules for them read, and that they read it back.
-/
namespace SqlFragment.Grammar
open Rule

/-- A word that the rule for names reads whole. -/
def isName (n : String) : Bool := n.toList.head?.any isNameStart && n.toList.all isNamePart

section
variable {n : String} {cs rest : List Char}

theorem isName_cons (named : isName n = true) :
    ∃ c tail, n.toList = c :: tail ∧ isNameStart c = true ∧ ∀ d ∈ n.toList, isNamePart d = true := by
  simp only [isName, Bool.and_eq_true, List.all_eq_true] at named
  obtain ⟨start, parts⟩ := named
  cases chars : n.toList with
  | nil => simp [chars] at start
  | cons c tail => exact ⟨c, tail, rfl, by simpa [chars] using start, chars ▸ parts⟩

theorem name_gives (named : isName n = true) (ends : EndsWord rest) :
    name.Gives (n.toList ++ rest) n rest := by
  obtain ⟨c, tail, chars, start, parts⟩ := isName_cons named
  have word : (n.toList ++ rest).takeWhile isNamePart = n.toList := firstWord_append parts ends
  have after := dropWord_append parts ends
  rw [chars, List.cons_append] at word after ⊢
  simp only [Gives, name, ofOption, start, ↓reduceIte, word, after]
  rw [← chars, String.ofList_toList]

theorem gives_name (gives : name.Gives cs n rest) :
    isName n = true ∧ cs = n.toList ++ rest ∧ EndsWord rest := by
  cases cs with
  | nil => cases gives
  | cons c cs =>
    simp only [Gives, name, ofOption] at gives
    split at gives
    · rename_i start
      have part : isNamePart c = true := by simp [isNamePart, start]
      cases gives
      refine ⟨?_, ?_, endsWord_dropWhile (c :: cs)⟩
      · simp [isName, part, start]
      · rw [String.toList_ofList]
        exact (List.takeWhile_append_dropWhile (p := isNamePart) (l := c :: cs)).symm
    · cases gives

theorem name_misses (other : ∀ c, cs.head? = some c → isNameStart c = false) : name.Misses cs := by
  cases cs with
  | nil => rfl
  | cons c cs => simp only [Misses, name, ofOption, other c rfl, Bool.false_eq_true, ↓reduceIte]

def dotted (names : List String) : List Char := names.flatMap fun n => '.' :: n.toList

theorem display_cons_toList (n : String) (names : List String) :
    (Path.display (n :: names)).toList = n.toList ++ dotted names :=
  Text.toList_intercalate_cons "." n names

theorem endsWord_dotted (names : List String) (ends : EndsWord rest) :
    EndsWord (dotted names ++ rest) := by
  cases names with
  | nil => exact ends
  | cons n names => exact endsWord_cons (by decide) _

theorem segments_give {names : List String} {most : Nat} (few : names.length ≤ most)
    (named : ∀ n ∈ names, isName n = true) (ends : Ends rest) :
    (segments most).Gives (dotted names ++ rest) names rest := by
  induction most generalizing names with
  | zero =>
    obtain rfl : names = [] := List.length_eq_zero_iff.1 (Nat.le_zero.1 few)
    exact gives_pure
  | succ most ih =>
    cases names with
    | nil =>
      have closed : (char '.').Misses rest := misses_char (ends.head_ne (by decide))
      exact Misses.orElse closed.bind gives_pure
    | cons n names =>
      have later := ih (Nat.le_of_succ_le_succ few) fun m mem => named m (List.mem_cons_of_mem n mem)
      have first := name_gives (named n List.mem_cons_self) (endsWord_dotted names ends.endsWord)
      have written : dotted (n :: names) ++ rest = '.' :: (n.toList ++ (dotted names ++ rest)) := by
        simp [dotted]
      rw [written]
      refine Gives.orElse ((gives_char '.').bind (first.bind (later.bind ?_)))
      exact gives_pure

theorem gives_segments {names : List String} {most : Nat}
    (gives : (segments most).Gives cs names rest) :
    names.length ≤ most ∧ ∀ n ∈ names, isName n = true := by
  induction most generalizing cs names with
  | zero =>
    cases gives
    exact ⟨Nat.le_refl 0, by simp⟩
  | succ most ih =>
    obtain gives | ⟨-, gives⟩ := gives_orElse gives
    · obtain ⟨_, _, -, gives⟩ := gives_bind gives
      obtain ⟨n, _, first, gives⟩ := gives_bind gives
      obtain ⟨later, _, segments, gives⟩ := gives_bind gives
      cases gives
      obtain ⟨few, named⟩ := ih segments
      exact ⟨Nat.succ_le_succ few, List.forall_mem_cons.2 ⟨(gives_name first).1, named⟩⟩
    · cases gives
      exact ⟨Nat.zero_le _, by simp⟩

def IsPath (p : Path) : Prop := p ≠ [] ∧ p.length ≤ 4 ∧ ∀ n ∈ p, isName n = true

instance (p : Path) : Decidable (IsPath p) := inferInstanceAs (Decidable (_ ∧ _ ∧ _))

theorem path_gives {p : Path} (isPath : IsPath p) (ends : Ends rest) :
    path.Gives (p.display.toList ++ rest) (.column p) rest := by
  obtain ⟨some, few, named⟩ := isPath
  obtain ⟨n, names, rfl⟩ := List.exists_cons_of_ne_nil some
  obtain ⟨first, later⟩ := List.forall_mem_cons.1 named
  rw [display_cons_toList, List.append_assoc]
  exact (name_gives first (endsWord_dotted names ends.endsWord)).bind
    ((segments_give (Nat.le_of_succ_le_succ few) later ends).bind gives_pure)

theorem gives_path {e : Expr} (gives : path.Gives cs e rest) :
    ∃ n names mid, e = .column (n :: names) ∧ IsPath (n :: names) ∧ name.Gives cs n mid := by
  obtain ⟨n, mid, first, gives⟩ := gives_bind gives
  obtain ⟨names, _, later, gives⟩ := gives_bind gives
  cases gives
  obtain ⟨few, named⟩ := gives_segments later
  exact ⟨n, names, mid, rfl, ⟨List.cons_ne_nil n names, Nat.succ_le_succ few,
    List.forall_mem_cons.2 ⟨(gives_name first).1, named⟩⟩, first⟩

def IsParameter (n : String) : Prop := n.toList ≠ [] ∧ ∀ c ∈ n.toList, isParameterPart c = true

theorem parameter_gives (named : IsParameter n) (ends : Ends rest) :
    parameter.Gives ((":" ++ n).toList ++ rest) (.parameter n) rest := by
  obtain ⟨some, parts⟩ := named
  obtain ⟨word, after⟩ := Text.takeWhile_append_ends parts fun d first => ends.apart (by decide) first
  have inside := @gives_takeWhile (n.toList ++ rest) isParameterPart
  rw [word, after] at inside
  have nonempty : n.toList.isEmpty = false := List.isEmpty_eq_false_iff.2 some
  have written : (":" ++ n).toList ++ rest = ':' :: (n.toList ++ rest) := by simp
  rw [written]
  refine (gives_char ':').bind (inside.bind ?_)
  simp only [nonempty, Bool.false_eq_true, ↓reduceIte, String.ofList_toList]
  exact gives_pure

theorem gives_parameter {e : Expr} (gives : parameter.Gives cs e rest) :
    ∃ n, e = .parameter n ∧ IsParameter n := by
  obtain ⟨_, _, -, gives⟩ := gives_bind gives
  obtain ⟨word, mid, taken, gives⟩ := gives_bind gives
  cases taken
  split at gives
  · cases gives
  · rename_i some
    cases gives
    refine ⟨_, rfl, ?_, ?_⟩
    · rw [String.toList_ofList]
      exact fun empty => some (List.isEmpty_iff.2 empty)
    · rw [String.toList_ofList]
      exact List.all_eq_true.1 List.all_takeWhile

end

end SqlFragment.Grammar
