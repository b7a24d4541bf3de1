import SqlFragment.Proofs.Grouping.Reader
import SqlFragment.Proofs.Text.RoundTrip

/-
The words that elementary expressions begin with: names, numbers and parameters are single tokens
that are read back as what they stand for.
-/
namespace SqlFragment.Grouping

def specials : List String := reservedWords ++ ["-", "+", "~", "(", ")", ","]

theorem isWord_of_not_special {w : String} (operand : w ∉ specials) : IsWord w := by
  have other : ∀ s ∈ specials, s ≠ w := fun s hs same => operand (same ▸ hs)
  refine ⟨?_, (other "(" (by decide)).symm, (other "CASE" (by decide)).symm⟩
  have spellings : ∀ op ∈ [UnaryOperator.not, .minus, .plus, .bitwiseNot, .existence],
      op.spelling ∈ specials := by decide
  refine List.find?_eq_none.mpr ?_
  intro op hop
  simpa using other op.spelling (spellings op hop)

theorem closers_special : ∀ t ∈ closers, t ∈ specials := by decide

theorem not_special_of_char {w : String} {p : Char → Bool} (special : ∀ s ∈ specials, s.toList.all (! p ·))
    {c : Char} (mem : c ∈ w.toList) (holds : p c = true) : w ∉ specials := by
  intro listed
  have free := List.all_eq_true.mp (special w listed) c mem
  simp [holds] at free

section
variable {name : String}

theorem toList_ne_nil_of_plain (plain : isPlainName name = true) : name.toList ≠ [] := by
  simp only [isPlainName, Bool.and_eq_true, Bool.not_eq_true'] at plain
  intro empty
  have blank : name = "" := String.toList_inj.mp empty
  exact absurd plain.1.1 (by rw [blank]; decide)

theorem isAlphanum_of_plain (plain : isPlainName name = true) {c : Char} (mem : c ∈ name.toList) :
    c.isAlphanum = true := by
  simp only [isPlainName, Bool.and_eq_true] at plain
  exact List.all_eq_true.mp plain.1.2 c mem

theorem not_special_of_plain (plain : isPlainName name = true) : name ∉ specials := by
  intro listed
  obtain reserved | mark := List.mem_append.mp listed
  · simp [isPlainName, reserved] at plain
  · have marks : ∀ s ∈ ["-", "+", "~", "(", ")", ","], s.toList.any (! ·.isAlphanum) = true := by
      decide
    obtain ⟨c, mem, other⟩ := List.any_eq_true.mp (marks name mark)
    rw [isAlphanum_of_plain plain mem] at other
    exact absurd other (by decide)

theorem isWordChar_of_alphanum {c : Char} (plain : c.isAlphanum = true) : isWordChar c = true := by
  simp [isWordChar, plain]

theorem tokens_plain (plain : isPlainName name = true) : tokens name.toList = [name] := by
  have all : name.toList.all isWordChar = true :=
    List.all_eq_true.mpr fun c hc => isWordChar_of_alphanum (isAlphanum_of_plain plain hc)
  rw [tokens_word (toList_ne_nil_of_plain plain) all, String.ofList_toList]

theorem dot_not_mem_of_plain (plain : isPlainName name = true) : '.' ∉ name.toList := by
  intro mem
  exact absurd (isAlphanum_of_plain plain mem) (by decide)

end

/-- A text that is one token, and an operand. -/
structure Names (word : String) (e : Expr) : Prop where
  single : tokens word.toList = [word]
  operand : word ∉ specials
  read : leaf word = e

theorem leaf_of_alphanum {word : String} {c : Char} {cs : List Char} (chars : word.toList = c :: cs)
    (plain : c.isAlphanum = true) : leaf word = Expr.ofPath (Path.parse word) := by
  rw [leaf, chars]
  split
  · rename_i shape
    have colon : c = ':' := (List.cons.inj shape).1
    rw [colon] at plain
    exact absurd plain (by decide)
  · rfl

theorem names_parameter {name : String} (plain : isPlainName name = true) :
    Names (":" ++ name) (.parameter name) where
  single := by
    have all : (":" ++ name).toList.all isWordChar = true := by
      refine List.all_eq_true.mpr ?_
      intro c mem
      obtain rfl | later : c = ':' ∨ c ∈ name.toList := by simpa using mem
      · decide
      · exact isWordChar_of_alphanum (isAlphanum_of_plain plain later)
    rw [tokens_word (by simp) all, String.ofList_toList]
  operand := not_special_of_char (p := (· == ':')) (by decide) (c := ':') (by simp) (by decide)
  read := by simp [leaf]

theorem names_number {n : Int64} (nonneg : 0 ≤ n.toInt) :
    Names (toString n.toInt) (.literal (.integer n) .undefined) := by
  have chars := Integer.toList_toString_of_nonneg nonneg
  have digit : ∀ c ∈ (toString n.toInt).toList, c.isDigit = true := by
    rw [chars]
    exact fun c mem => Integer.isDigit_of_mem_toDigits mem
  obtain ⟨c, cs, front⟩ : ∃ c cs, (toString n.toInt).toList = c :: cs := by
    rw [chars]
    exact List.exists_cons_of_ne_nil Nat.toDigits_ne_nil
  have mem : c ∈ (toString n.toInt).toList := by rw [front]; exact List.mem_cons_self
  have first : c.isDigit = true := digit c mem
  have alphanum : ∀ {d : Char}, d.isDigit = true → d.isAlphanum = true := by
    intro d digit
    simp [Char.isAlphanum, digit]
  have number : Path.parse (toString n.toInt) = [toString n.toInt] := by
    have dotless : '.' ∉ (toString n.toInt).toList := fun mem =>
      absurd (digit '.' mem) (by decide)
    refine @Path.parse_display [toString n.toInt] (List.cons_ne_nil _ _) ?_ ?_
    · intro blank
      rw [(List.cons.inj blank).1] at front
      cases front
    · intro segment listed
      rwa [List.mem_singleton.mp listed]
  refine ⟨?_, ?_, ?_⟩
  · have all : (toString n.toInt).toList.all isWordChar = true :=
      List.all_eq_true.mpr fun d hd => isWordChar_of_alphanum (alphanum (digit d hd))
    rw [tokens_word (List.ne_nil_of_mem mem) all, String.ofList_toList]
  · exact not_special_of_char (p := Char.isDigit) (by decide) mem first
  · rw [leaf_of_alphanum front (alphanum first), number]
    simp only [Expr.ofPath, Expr.numeral?, Integer.parse?_toString, Option.filter_some, decide_true,
      ↓reduceIte]

theorem display_cons_chars (segment : String) (path : Path) :
    ∃ rest, Path.display (segment :: path) = segment ++ rest ∧ (path ≠ [] → '.' ∈ rest.toList) := by
  cases path with
  | nil => exact ⟨"", by simp [Path.display], fun some => absurd rfl some⟩
  | cons next path =>
    exact ⟨"." ++ Path.display (next :: path),
      by simp [Path.display, String.intercalate_cons_cons, String.append_assoc], by simp⟩

theorem isWordChar_display {path : Path} (plain : ∀ segment ∈ path, isPlainName segment = true) :
    path.display.toList.all isWordChar = true := by
  rw [Path.display_toList]
  induction path with
  | nil => rfl
  | cons segment path ih =>
    have here : segment.toList.all isWordChar = true := List.all_eq_true.mpr fun c hc =>
      isWordChar_of_alphanum (isAlphanum_of_plain (plain segment (by simp)) hc)
    have later := ih fun s hs => plain s (List.mem_cons_of_mem segment hs)
    cases path with
    | nil => simpa using here
    | cons next path =>
      have dot : isWordChar '.' = true := by decide
      rw [List.map_cons, List.map_cons, List.intercalate_cons_cons, List.all_append,
        List.all_append, here]
      simpa [dot] using later

theorem names_column {path : Path} (some : path ≠ [])
    (plain : ∀ segment ∈ path, isPlainName segment = true)
    (column : Expr.ofPath path = .column path) : Names path.display (.column path) := by
  have parsed : Path.parse path.display = path := by
    refine Path.parse_display some ?_ fun s hs => dot_not_mem_of_plain (plain s hs)
    rintro rfl
    exact absurd (plain "" (by simp)) (by decide)
  obtain ⟨segment, rest, rfl⟩ := List.exists_cons_of_ne_nil some
  have first := plain segment (by simp)
  obtain ⟨c, cs, front⟩ := List.exists_cons_of_ne_nil (toList_ne_nil_of_plain first)
  obtain ⟨after, text, dotted⟩ := display_cons_chars segment rest
  have chars : (Path.display (segment :: rest)).toList = c :: (cs ++ after.toList) := by
    rw [text, String.toList_append, front]
    rfl
  have alphanum : c.isAlphanum = true := isAlphanum_of_plain first (by rw [front]; simp)
  refine ⟨?_, ?_, ?_⟩
  · have nonempty : (Path.display (segment :: rest)).toList ≠ [] := by simp [chars]
    rw [tokens_word nonempty (isWordChar_display plain), String.ofList_toList]
  · by_cases single : rest = []
    · have same : Path.display (segment :: rest) = segment := by simp [single, Path.display]
      rw [same]
      exact not_special_of_plain first
    · refine not_special_of_char (p := (· == '.')) (by decide) (c := '.') ?_ (by decide)
      rw [text, String.toList_append]
      exact List.mem_append_right _ (dotted single)
  · rw [leaf_of_alphanum chars alphanum, parsed, column]

end SqlFragment.Grouping
