import SqlFragment.Grammar.Token
import SqlFragment.Proofs.Grammar.Rule
import SqlFragment.Proofs.Text.RoundTrip

/-
Rules of names and tokens. A keyword is read exactly where the first word of the text is that
keyword, in any case.
-/
namespace SqlFragment.Grammar
open Rule

def afterToken? : List Char → List Char → Option (List Char)
  | [], cs => some cs
  | ' ' :: token, cs =>
    match cs with
    | c :: rest => if Text.isBlank c then afterToken? token (Text.skipBlank rest) else none
    | [] => none
  | t :: token, cs =>
    match cs with
    | c :: rest => if c.toLower = t.toLower then afterToken? token rest else none
    | [] => none

def token (text : String) (blankAfter : Bool) : Rule Unit := Rule.ofOption fun cs =>
  match afterToken? text.toList cs with
  | some rest => if endsBefore text.toList blankAfter rest then some ((), rest) else none
  | none => none

def keyword (word : String) : Rule Unit := token word false

def comesNext (word : String) : Rule Bool := fun cs =>
  match keyword word cs with
  | .error fault => .error fault
  | .ok result => .ok (some (result.isSome, cs))

def name : Rule String := Rule.ofOption fun cs =>
  match cs with
  | c :: _ =>
    if isNameStart c then some (String.ofList (cs.takeWhile isNamePart), cs.dropWhile isNamePart)
    else none
  | [] => none

/-- At most `most` further segments of a path. -/
def segments : Nat → Rule (List String)
  | 0 => pure []
  | most + 1 =>
    (do
      Rule.char '.'
      let segment ← name
      let rest ← segments most
      return segment :: rest) <|> pure []

def path : Rule Expr := do
  let first ← name
  let rest ← segments 3
  return .column (first :: rest)

def parameter : Rule Expr := do
  Rule.char ':'
  let cs ← Rule.takeWhile isParameterPart
  if cs.isEmpty then failure else return .parameter (String.ofList cs)

theorem afterToken?_length {t cs rest : List Char} (found : afterToken? t cs = some rest) :
    rest.length + t.length ≤ cs.length := by
  fun_induction afterToken? t cs with
  | case1 cs =>
    cases found
    exact Nat.le_refl _
  | case2 token c tail blank ih =>
    have skipped := Text.skipBlank_length_le tail
    have later := ih found
    simp only [List.length_cons]
    omega
  | case3 | case4 | case6 | case7 => cases found
  | case5 t token visible c tail same ih =>
    have later := ih found
    simp only [List.length_cons]
    omega

theorem isAlpha_toLower (c : Char) : c.toLower.isAlpha = c.isAlpha := by
  unfold Char.toLower
  split
  · rename_i upper
    have low : 65 ≤ c.toNat := by simpa [UInt32.le_iff_toNat_le] using upper.1
    have high : c.toNat ≤ 90 := by simpa [UInt32.le_iff_toNat_le] using upper.2
    rw [(Text.isAlpha_iff c).2 (by omega), Text.isAlpha_iff]
    simp [UInt32.toNat_add]
    omega
  · rfl

/-- The longest beginning of a text that is made like a name. -/
def firstWord (cs : List Char) : List Char := cs.takeWhile isNamePart

/-- The first word is `word`, in any case; `word` is given in lower case. -/
def Begins (word : String) (cs : List Char) : Prop := (firstWord cs).map Char.toLower = word.toList

instance (word : String) (cs : List Char) : Decidable (Begins word cs) :=
  inferInstanceAs (Decidable (_ = _))

def IsKeyword (word : String) : Prop :=
  word.toList ≠ [] ∧ word.toList.all (fun c => c.isAlpha && c.toLower == c) = true

instance (word : String) : Decidable (IsKeyword word) := inferInstanceAs (Decidable (_ ∧ _))

theorem isNamePart_of_isAlpha {c : Char} (letter : c.isAlpha = true) : isNamePart c = true := by
  simp [isNamePart, isNameStart, letter]

theorem code_of_isNamePart {c : Char} (part : isNamePart c = true) :
    c.toNat = 35 ∨ (48 ≤ c.toNat ∧ c.toNat ≤ 57) ∨ (64 ≤ c.toNat ∧ c.toNat ≤ 90) ∨ c.toNat = 95 ∨
      (97 ≤ c.toNat ∧ c.toNat ≤ 122) := by
  simp only [isNamePart, isNameStart, Bool.or_eq_true, beq_iff_eq] at part
  obtain (((letter | rfl) | rfl) | rfl) | digit := part
  · have code := (Text.isAlpha_iff c).1 letter
    omega
  · decide
  · decide
  · decide
  · exact .inr (.inl (Char.isDigit_iff_toNat.1 digit))

theorem isNamePart_of_isBlank {c : Char} (blank : Text.isBlank c = true) : isNamePart c = false := by
  cases part : isNamePart c with
  | false => rfl
  | true =>
    have code := code_of_isNamePart part
    simp only [Text.isBlank, Bool.or_eq_true, Bool.and_eq_true, decide_eq_true_eq, beq_iff_eq]
      at blank
    omega
def EndsWord (rest : List Char) : Prop := ∀ c, rest.head? = some c → isNamePart c = false

theorem endsWord_nil : EndsWord [] := fun _ first => nomatch first

theorem endsWord_cons {c : Char} (other : isNamePart c = false) (rest : List Char) :
    EndsWord (c :: rest) := by
  rintro d ⟨rfl⟩
  exact other

theorem firstWord_append {front rest : List Char} (word : ∀ c ∈ front, isNamePart c = true)
    (ends : EndsWord rest) : firstWord (front ++ rest) = front := by
  rw [firstWord, List.takeWhile_append_of_pos word]
  cases rest with
  | nil => simp
  | cons c rest => simp [ends c rfl]

theorem dropWord_append {front rest : List Char} (word : ∀ c ∈ front, isNamePart c = true)
    (ends : EndsWord rest) : (front ++ rest).dropWhile isNamePart = rest := by
  rw [List.dropWhile_append_of_pos word]
  cases rest with
  | nil => rfl
  | cons c rest => simp [ends c rfl]

theorem firstWord_append_ends {rest : List Char} (cs : List Char) (ends : EndsWord rest) :
    firstWord (cs ++ rest) = firstWord cs := by
  induction cs with
  | nil =>
    cases rest with
    | nil => rfl
    | cons c rest => simp [firstWord, ends c rfl]
  | cons c cs ih =>
    simp only [firstWord, List.cons_append, List.takeWhile_cons] at ih ⊢
    rw [ih]

theorem begins_append {rest : List Char} (word : String) (cs : List Char) (ends : EndsWord rest) :
    Begins word (cs ++ rest) ↔ Begins word cs := by
  rw [Begins, Begins, firstWord_append_ends cs ends]

theorem afterToken?_append (token other cs : List Char) :
    afterToken? (token ++ other) cs = (afterToken? token cs).bind (afterToken? other) := by
  fun_induction afterToken? token cs with
  | case1 cs => simp
  | case2 token c rest blank ih => simp only [List.cons_append, afterToken?, blank, ↓reduceIte, ih]
  | case3 token c rest blank => simp [afterToken?, blank]
  | case4 token => rfl
  | case5 t token visible c rest same ih =>
    rw [List.cons_append, afterToken?.eq_4 t _ c rest visible, if_pos same, ih]
  | case6 t token visible c rest same =>
    rw [List.cons_append, afterToken?.eq_4 t _ c rest visible, if_neg same, Option.bind_none]
  | case7 t token visible =>
    rw [List.cons_append, afterToken?.eq_5 t _ visible, Option.bind_none]

section
variable {token front cs rest : List Char}

/-- A token without blanks is a beginning of the text, in any case. -/
theorem afterToken?_eq_some (visible : ∀ t ∈ token, t ≠ ' ') (found : afterToken? token cs = some rest) :
    ∃ front, cs = front ++ rest ∧ front.map Char.toLower = token.map Char.toLower := by
  fun_induction afterToken? token cs with
  | case1 cs =>
    cases found
    exact ⟨[], rfl, rfl⟩
  | case2 | case3 | case4 => exact absurd rfl (visible ' ' (by simp))
  | case5 t token _ c tail same ih =>
    obtain ⟨front, rfl, lower⟩ := ih (fun x hx => visible x (List.mem_cons_of_mem t hx)) found
    exact ⟨c :: front, rfl, by simp [same, lower]⟩
  | case6 | case7 => cases found

theorem afterToken?_front (visible : ∀ t ∈ token, t ≠ ' ')
    (lower : front.map Char.toLower = token.map Char.toLower) :
    afterToken? token (front ++ rest) = some rest := by
  induction token generalizing front with
  | nil =>
    have empty : front = [] := List.map_eq_nil_iff.mp lower
    rw [empty]
    rfl
  | cons t token ih =>
    cases front with
    | nil => cases lower
    | cons c front =>
      obtain ⟨same, later⟩ := List.cons.inj lower
      have here := visible t (by simp)
      rw [List.cons_append, afterToken?.eq_4 t token c _ here, if_pos same]
      exact ih (fun x hx => visible x (List.mem_cons_of_mem t hx)) later

end

section
variable {word : String} {cs rest front : List Char}

theorem IsKeyword.visible (keyword : IsKeyword word) : ∀ t ∈ word.toList, t ≠ ' ' := by
  rintro t mem rfl
  have letter := List.all_eq_true.mp keyword.2 ' ' mem
  exact absurd letter (by decide)

theorem IsKeyword.lower (keyword : IsKeyword word) :
    word.toList.map Char.toLower = word.toList := by
  refine (List.map_congr_left ?_).trans (List.map_id _)
  intro c mem
  have letter := List.all_eq_true.mp keyword.2 c mem
  simp only [Bool.and_eq_true, beq_iff_eq] at letter
  exact letter.2

theorem IsKeyword.isNamePart (keyword : IsKeyword word)
    (lower : front.map Char.toLower = word.toList) : ∀ c ∈ front, isNamePart c = true := by
  intro c mem
  have member : c.toLower ∈ word.toList := by
    rw [← lower]
    exact List.mem_map_of_mem mem
  have letter := List.all_eq_true.mp keyword.2 _ member
  simp only [Bool.and_eq_true] at letter
  refine isNamePart_of_isAlpha ?_
  rw [← isAlpha_toLower]
  exact letter.1

theorem begins_of_front (keyword : IsKeyword word) (lower : front.map Char.toLower = word.toList)
    (ends : EndsWord rest) : Begins word (front ++ rest) := by
  rw [Begins, firstWord_append (keyword.isNamePart lower) ends, lower]

theorem IsKeyword.getLast? (keyword : IsKeyword word) :
    ∃ last, word.toList.getLast? = some last ∧ last.isAlpha = true := by
  obtain ⟨nonempty, letters⟩ := keyword
  refine ⟨word.toList.getLast nonempty, List.getLast?_eq_some_getLast nonempty, ?_⟩
  have letter := List.all_eq_true.mp letters _ (List.getLast_mem nonempty)
  simp only [Bool.and_eq_true] at letter
  exact letter.1

theorem endsWord_of_endsBefore {blankAfter : Bool} (keyword : IsKeyword word)
    (ends : endsBefore word.toList blankAfter rest = true) : EndsWord rest := by
  obtain ⟨last, final, letter⟩ := keyword.getLast?
  cases rest with
  | nil => exact endsWord_nil
  | cons c rest =>
    simp only [endsBefore, final, letter, Bool.true_and, Bool.and_eq_true, Bool.not_eq_true'] at ends
    exact endsWord_cons ends.1 rest

theorem begins_of_token {blankAfter : Bool} {u : Unit} (keyword : IsKeyword word)
    (gives : (token word blankAfter).Gives cs u rest) : Begins word cs := by
  simp only [Gives, token, ofOption] at gives
  split at gives
  · rename_i after found
    split at gives
    · rename_i ends
      obtain ⟨front, rfl, lower⟩ := afterToken?_eq_some keyword.visible found
      rw [keyword.lower] at lower
      exact begins_of_front keyword lower (endsWord_of_endsBefore keyword ends)
    · cases gives
  · cases gives

theorem token_misses_or_gives (word : String) (blankAfter : Bool) (cs : List Char) :
    (token word blankAfter).Misses cs ∨ ∃ rest, (token word blankAfter).Gives cs () rest := by
  cases result : token word blankAfter cs with
  | error fault => exact absurd result (by simp [token, ofOption])
  | ok outcome =>
    obtain _ | ⟨⟨⟩, rest⟩ := outcome
    · exact .inl result
    · exact .inr ⟨rest, result⟩

theorem token_misses {blankAfter : Bool} (keyword : IsKeyword word) (other : ¬Begins word cs) :
    (token word blankAfter).Misses cs := by
  obtain misses | ⟨rest, gives⟩ := token_misses_or_gives word blankAfter cs
  · exact misses
  · exact absurd (begins_of_token keyword gives) other

theorem endsBefore_word (ends : EndsWord rest) : endsBefore word.toList false rest = true := by
  cases rest with
  | nil => cases last : word.toList.getLast? <;> simp [endsBefore, last]
  | cons c rest =>
    cases last : word.toList.getLast? <;> simp [endsBefore, last, ends c rfl]

theorem keyword_gives (keyword : IsKeyword word) (lower : front.map Char.toLower = word.toList)
    (ends : EndsWord rest) : (Grammar.keyword word).Gives (front ++ rest) () rest := by
  have found : afterToken? word.toList (front ++ rest) = some rest :=
    afterToken?_front keyword.visible (by rw [lower, keyword.lower])
  simp only [Gives, Grammar.keyword, token, ofOption, found, endsBefore_word ends, ↓reduceIte]

theorem endsWord_dropWhile (cs : List Char) : EndsWord (cs.dropWhile isNamePart) := by
  intro c first
  have stop := List.head?_dropWhile_not isNamePart cs
  rw [first] at stop
  simpa using stop

theorem keyword_gives_of_begins (keyword : IsKeyword word) (begins : Begins word cs) :
    (Grammar.keyword word).Gives cs () (cs.dropWhile isNamePart) := by
  have text : firstWord cs ++ cs.dropWhile isNamePart = cs := List.takeWhile_append_dropWhile
  have found := keyword_gives keyword begins (endsWord_dropWhile cs)
  rwa [text] at found

theorem comesNext_gives (keyword : IsKeyword word) :
    (comesNext word).Gives cs (Begins word cs) cs := by
  by_cases begins : Begins word cs
  · have found := keyword_gives_of_begins keyword begins
    rw [Gives] at found
    simp only [Gives, comesNext, found, begins]
    rfl
  · have misses : Grammar.keyword word cs = .ok none := token_misses keyword begins
    simp only [Gives, comesNext, misses, begins]
    rfl

end

end SqlFragment.Grammar
