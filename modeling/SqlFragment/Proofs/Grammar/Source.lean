import SqlFragment.Grammar.Token

/-
Bytes and characters of a text. A byte at which a text can be cut has a whole number of characters
before it, and what is cut off there are the others.
-/
namespace SqlFragment.Text

theorem length_dropWhile_lt {p : Char → Bool} {cs : List Char} (taken : cs.takeWhile p ≠ []) :
    (cs.dropWhile p).length < cs.length := by
  have parts := congrArg List.length (List.takeWhile_append_dropWhile (p := p) (l := cs))
  have some := List.length_pos_iff.mpr taken
  rw [List.length_append] at parts
  omega

theorem any_head? (p : Char → Bool) (cs : List Char) :
    cs.head?.any p = !(cs.takeWhile p).isEmpty := by
  cases cs with
  | nil => rfl
  | cons c cs => cases held : p c <;> simp [held]

end SqlFragment.Text

namespace SqlFragment.Grammar

theorem bytesOf_append (front rest : List Char) :
    bytesOf (front ++ rest) = bytesOf front + bytesOf rest := by
  induction front with
  | nil => rw [List.nil_append, bytesOf, Nat.zero_add]
  | cons c front ih => rw [List.cons_append, bytesOf, bytesOf, ih, Nat.add_assoc]

theorem bytesOf_eq_utf8ByteSize (cs : List Char) :
    bytesOf cs = (String.ofList cs).utf8ByteSize := by
  induction cs with
  | nil => rfl
  | cons c cs ih =>
    rw [bytesOf, ih, String.ofList_cons, String.utf8ByteSize_append, String.utf8ByteSize_singleton]

theorem bytesOf_pos {cs : List Char} (some : cs ≠ []) : 0 < bytesOf cs := by
  cases cs with
  | nil => exact absurd rfl some
  | cons c cs => exact Nat.lt_of_lt_of_le c.utf8Size_pos (Nat.le_add_right _ _)

theorem takeBytes?_append (front rest : List Char) :
    takeBytes? (bytesOf front) (front ++ rest) = some front := by
  induction front with
  | nil => rw [bytesOf, takeBytes?]
  | cons c front ih =>
    have some : bytesOf (c :: front) = c.utf8Size - 1 + bytesOf front + 1 := by
      have := c.utf8Size_pos
      rw [bytesOf]
      omega
    rw [some, List.cons_append, takeBytes?, if_pos (by omega)]
    have left : c.utf8Size - 1 + bytesOf front + 1 - c.utf8Size = bytesOf front := by
      have := c.utf8Size_pos
      omega
    rw [left, ih, Option.map_some]

theorem length_cutsOf (cs : List Char) : (cutsOf cs).length = bytesOf cs + 1 := by
  induction cs with
  | nil => rfl
  | cons c cs ih =>
    have := c.utf8Size_pos
    rw [cutsOf, List.length_cons, List.length_append, List.length_replicate, ih, bytesOf]
    omega

theorem cutsOf_join_eq_some {cs rest : List Char} {offset : Nat} :
    (cutsOf cs)[offset]?.join = some rest ↔ ∃ front, cs = front ++ rest ∧ bytesOf front = offset := by
  induction cs generalizing offset with
  | nil =>
    rw [cutsOf]
    cases offset with
    | zero =>
      simp only [List.getElem?_cons_zero, Option.join_some, Option.some.injEq]
      constructor
      · rintro rfl
        exact ⟨[], rfl, rfl⟩
      · rintro ⟨front, same, _⟩
        exact (List.nil_eq_append_iff.mp same).2.symm
    | succ offset =>
      simp only [List.getElem?_cons_succ, List.getElem?_nil, Option.join_none, reduceCtorEq,
        false_iff, not_exists, not_and]
      rintro front empty
      obtain ⟨rfl, rfl⟩ := List.nil_eq_append_iff.mp empty
      simp [bytesOf]
  | cons c cs ih =>
    have positive := c.utf8Size_pos
    rw [cutsOf]
    cases offset with
    | zero =>
      simp only [List.getElem?_cons_zero, Option.join_some, Option.some.injEq]
      constructor
      · rintro rfl
        exact ⟨[], rfl, rfl⟩
      · rintro ⟨front, same, none⟩
        cases front with
        | nil => exact same
        | cons d front =>
          have := bytesOf_pos (List.cons_ne_nil d front)
          omega
    | succ offset =>
      -- the bytes of the first character come before all that can be cut off behind it
      rw [List.getElem?_cons_succ, List.getElem?_append, List.length_replicate]
      split
      · rename_i inside
        rw [List.getElem?_replicate_of_lt inside, Option.join_some]
        simp only [reduceCtorEq, false_iff, not_exists, not_and]
        rintro (_ | ⟨d, front⟩) same bytes
        · simp [bytesOf] at bytes
        · cases same
          rw [bytesOf] at bytes
          omega
      · rename_i outside
        rw [ih]
        constructor
        · rintro ⟨front, rfl, bytes⟩
          refine ⟨c :: front, rfl, ?_⟩
          rw [bytesOf]
          omega
        · rintro ⟨_ | ⟨d, front⟩, same, bytes⟩
          · simp [bytesOf] at bytes
          · cases same
            rw [bytesOf] at bytes
            exact ⟨front, rfl, by omega⟩

namespace Source
variable {text cs front rest : List Char} {place next : Nat}

theorem from?_eq_some_iff :
    (ofChars text).from? place = some cs ↔ ∃ front, text = front ++ cs ∧ bytesOf front = place := by
  rw [from?, ofChars, List.getElem?_toArray]
  exact cutsOf_join_eq_some

theorem size_ofChars (text : List Char) : (ofChars text).size = bytesOf text := by
  rw [size, ofChars, List.size_toArray, length_cutsOf, Nat.add_sub_cancel]

theorem from?_zero (text : List Char) : (ofChars text).from? 0 = some text :=
  from?_eq_some_iff.mpr ⟨[], rfl, rfl⟩

theorem from?_append (here : (ofChars text).from? place = some (front ++ rest)) :
    (ofChars text).from? (place + bytesOf front) = some rest := by
  obtain ⟨before, rfl, rfl⟩ := from?_eq_some_iff.mp here
  exact from?_eq_some_iff.mpr ⟨before ++ front, by simp, bytesOf_append before front⟩

theorem from?_cons {c : Char} (here : (ofChars text).from? place = some (c :: rest)) :
    (ofChars text).from? (place + c.utf8Size) = some rest := by
  have split : (ofChars text).from? place = some ([c] ++ rest) := here
  exact from?_append split

theorem place_add_bytesOf (here : (ofChars text).from? place = some cs) :
    place + bytesOf cs = bytesOf text := by
  obtain ⟨before, rfl, rfl⟩ := from?_eq_some_iff.mp here
  exact (bytesOf_append before cs).symm

theorem place_unique (here : (ofChars text).from? place = some cs)
    (there : (ofChars text).from? next = some cs) : place = next := by
  have := place_add_bytesOf here
  have := place_add_bytesOf there
  omega

theorem between?_append (here : (ofChars text).from? place = some (front ++ rest))
    (there : (ofChars text).from? next = some rest) :
    (ofChars text).between? place next = some front := by
  obtain rfl := place_unique (from?_append here) there
  rw [between?, if_pos (Nat.le_add_right _ _), here, Option.bind_some, Nat.add_sub_cancel_left]
  exact takeBytes?_append front rest

/-- What is behind is at a later byte. -/
theorem place_lt_of_suffix (here : (ofChars text).from? place = some cs)
    (there : (ofChars text).from? next = some rest) (behind : rest <:+ cs)
    (shorter : rest.length < cs.length) : place < next := by
  obtain ⟨front, rfl⟩ := behind
  have some : front ≠ [] := by
    rintro rfl
    simp at shorter
  have := bytesOf_pos some
  have := place_unique (from?_append here) there
  omega

theorem le_size (here : (ofChars text).from? place = some cs) : place ≤ (ofChars text).size := by
  have := place_add_bytesOf here
  rw [size_ofChars]
  omega

end Source

/-- The characters from the byte `offset` of a text on. -/
def Place (text : String) (offset : Nat) (rest : List Char) : Prop :=
  ∃ front, text = front ++ String.ofList rest ∧ offset = front.utf8ByteSize

section
variable {text : String} {offset : Nat} {rest : List Char}

theorem place_iff :
    Place text offset rest ↔ (Source.ofChars text.toList).from? offset = some rest := by
  rw [Source.from?_eq_some_iff]
  constructor
  · rintro ⟨front, rfl, rfl⟩
    refine ⟨front.toList, by rw [String.toList_append, String.toList_ofList], ?_⟩
    rw [bytesOf_eq_utf8ByteSize, String.ofList_toList]
  · rintro ⟨front, same, rfl⟩
    refine ⟨String.ofList front, ?_, bytesOf_eq_utf8ByteSize front⟩
    rw [← String.ofList_append, ← same, String.ofList_toList]

theorem Place.valid (place : Place text offset rest) : String.Pos.Raw.IsValid text ⟨offset⟩ := by
  obtain ⟨front, rfl, rfl⟩ := place
  exact String.Pos.Raw.isValid_iff_exists_append.mpr ⟨front, _, rfl, rfl⟩

end

end SqlFragment.Grammar
