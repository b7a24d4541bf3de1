import SqlFragment.Proofs.Double.Decimal
import SqlFragment.Proofs.Grammar.Literal
import SqlFragment.Proofs.Grammar.Tracking.Token

/-
Readers of literals in step with their rules. A number is cut out of the text from its first byte to
the one behind it, and the text between them has the parts that were read one after the other.
-/
namespace SqlFragment

theorem Integer.parse?_of_digits {sign ds : List Char} {negative : Bool}
    (read : Double.takeSign (sign ++ ds) = (negative, ds)) (filled : ds ≠ [])
    (digits : ∀ c ∈ ds, c.isDigit = true) :
    parse? (sign ++ ds) =
      ofInt? (if negative then -(Text.digitsValue ds : Int) else Text.digitsValue ds) := by
  have nonempty : ds.isEmpty = false := List.isEmpty_eq_false_iff.mpr filled
  simp only [parse?, digits?, read, nonempty, List.all_eq_true.mpr digits, Bool.not_false,
    Bool.and_self, ↓reduceIte, Option.bind_some]

namespace Text
variable {close c : Char} {rest : List Char}

theorem readQuoted?_cons (other : c ≠ close) (rest : List Char) :
    readQuoted? close (c :: rest) =
      (readQuoted? close rest).map fun (inside, after) => (c :: inside, after) := by
  cases rest with
  | nil => simp [readQuoted?, other]
  | cons d rest => rw [readQuoted?, if_neg other]

theorem readQuoted?_append {chunk : List Char} (free : ∀ c ∈ chunk, c ≠ close) (rest : List Char) :
    readQuoted? close (chunk ++ rest) =
      (readQuoted? close rest).map fun (inside, after) => (chunk ++ inside, after) := by
  induction chunk with
  | nil => simp
  | cons c chunk ih =>
    obtain ⟨other, free⟩ := List.forall_mem_cons.mp free
    rw [List.cons_append, readQuoted?_cons other, ih free, Option.map_map]
    rfl

theorem readQuoted?_close (ends : rest.head? ≠ some close) :
    readQuoted? close (close :: rest) = some ([], rest) := by
  cases rest with
  | nil => simp [readQuoted?]
  | cons d rest =>
    have other : d ≠ close := by simpa using ends
    simp [readQuoted?, other]

end Text

namespace Grammar
open Source

theorem numeralValue?_of_parts {cs body mid rest : List Char} {negative : Bool}
    {part : Option (List Char)} {power : Option Int} (signed : Double.takeSign cs = (negative, body))
    (filled : body.takeWhile Char.isDigit ≠ [])
    (pointed : Double.takeFraction (body.dropWhile Char.isDigit) = (part, mid))
    (scaled : Double.takeExponent mid = (power, rest)) :
    ∃ front, cs = front ++ rest ∧ front ≠ [] ∧ numeralValue? part.isSome power.isSome front =
      some (numberValue negative (body.takeWhile Char.isDigit) part power) := by
  obtain ⟨sign, behind, reads⟩ := Double.takeSign_split cs
  obtain ⟨fraction, split, decimals⟩ := Double.takeFraction_split (body.dropWhile Char.isDigit)
  obtain ⟨exponent, tail, ends, bare⟩ := Double.takeExponent_split mid
  rw [signed] at behind reads
  rw [pointed] at split decimals
  rw [scaled] at tail ends bare
  have digits : ∀ c ∈ body.takeWhile Char.isDigit, c.isDigit = true := fun c mem =>
    List.all_eq_true.mp List.all_takeWhile c mem
  have parted : body = body.takeWhile Char.isDigit ++ (fraction ++ (exponent ++ rest)) := by
    rw [← tail, ← split, List.takeWhile_append_dropWhile]
  have first : ∀ after : List Char, ∀ c, (body.takeWhile Char.isDigit ++ after).head? = some c →
      c.isDigit = true := by
    intro after c head
    obtain ⟨d, ds, front⟩ := List.exists_cons_of_ne_nil filled
    rw [front, List.cons_append, List.head?_cons, Option.some.injEq] at head
    exact digits c (by rw [front, head]; exact List.mem_cons_self)
  refine ⟨sign ++ (body.takeWhile Char.isDigit ++ (fraction ++ exponent)), ?_, ?_, ?_⟩
  · simp only [List.append_assoc]
    rw [← parted, ← behind]
  · simp [filled]
  · have point : fraction = [] ∧ part.getD [] = [] ∨ fraction = '.' :: part.getD [] := by
      cases part with
      | some ds => exact .inr decimals.1
      | none => exact .inl ⟨decimals, rfl⟩
    have decimal : ∀ c ∈ part.getD [], c.isDigit = true := by
      cases part with
      | some ds => exact decimals.2
      | none => nofun
    have float := Double.parse?_of_parts (reads _ (first _)) filled digits point decimal ends
    rw [numeralValue?, float]
    cases part with
    | some ds => rfl
    | none =>
      cases power with
      | some e => rfl
      | none =>
        have unsigned := reads _ (by simpa using first [])
        have plain := Integer.parse?_of_digits unsigned filled digits
        have whole : fraction = [] := decimals
        simp only [whole, bare rfl, List.append_nil, plain, Option.isSome_none, Bool.false_eq_true,
          ↓reduceIte, numberValue]
        generalize Integer.ofInt? _ = fitting
        cases fitting <;> rfl

namespace Reader
variable {ops : Operators} {text cs rest : List Char} {size place : Nat} {c d e : Char}

theorem nextIsEither_of_mark (here : (ofChars text).from? place = some (e :: rest))
    (mark : e = c ∨ e = d) :
    ∃ next, (ofChars text).from? next = some rest ∧
      nextIsEither c d (ofChars text) place = .ok (some true, next) := by
  refine ⟨place + e.utf8Size, from?_cons here, ?_⟩
  by_cases same : e = c
  · subst same
    exact bind_of_some (nextIs_apply_cons here)
  · obtain rfl := mark.resolve_left same
    have other : (e :: rest).head? ≠ some c := by simpa using same
    exact (bind_of_some (nextIs_apply_other here other)).trans (nextIs_apply_cons here)

theorem nextIsEither_of_other (here : (ofChars text).from? place = some cs)
    (other : ∀ e, cs.head? = some e → ¬(e = c ∨ e = d)) :
    nextIsEither c d (ofChars text) place = .ok (some false, place) := by
  have first : cs.head? ≠ some c := fun same => other c same (.inl rfl)
  have second : cs.head? ≠ some d := fun same => other d same (.inr rfl)
  exact (bind_of_some (nextIs_apply_other here first)).trans (nextIs_apply_other here second)

theorem sign_apply (here : (ofChars text).from? place = some cs) :
    ∃ signed next, (ofChars text).from? next = some (Double.takeSign cs).2 ∧
      sign (ofChars text) place = .ok (some signed, next) := by
  fun_cases Double.takeSign cs with
  | case1 rest => exact ⟨true, nextIsEither_of_mark here (.inl rfl)⟩
  | case2 rest => exact ⟨true, nextIsEither_of_mark here (.inr rfl)⟩
  | case3 cs minus plus =>
    refine ⟨false, place, here, nextIsEither_of_other here ?_⟩
    rintro e first (rfl | rfl)
    · obtain ⟨rest, rfl⟩ := List.head?_eq_some_iff.mp first
      exact minus rest rfl
    · obtain ⟨rest, rfl⟩ := List.head?_eq_some_iff.mp first
      exact plus rest rfl

theorem fraction_apply (here : (ofChars text).from? place = some cs) :
    ∃ next, (ofChars text).from? next = some (Double.takeFraction cs).2 ∧
      fraction (ofChars text) place = .ok (some (Double.takeFraction cs).1.isSome, next) := by
  rw [fraction, bind_of_some (rest_apply here)]
  fun_cases Double.takeFraction cs with
  | case1 rest ds empty =>
    have behind : (ofChars text).from? (place + 1) = some rest := from?_cons here
    refine ⟨place, here, ?_⟩
    rw [if_pos List.head?_cons, bind_of_some rfl, bind_of_some (sliceFrom_apply behind), if_neg]
    · rfl
    · have none : (rest.takeWhile Char.isDigit).isEmpty = true := empty
      rw [Text.any_head?, none]
      decide
  | case2 rest ds filled =>
    have behind : (ofChars text).from? (place + 1) = some rest := from?_cons here
    refine ⟨_, from?_dropWhile Char.isDigit behind, ?_⟩
    rw [if_pos List.head?_cons, bind_of_some rfl, bind_of_some (sliceFrom_apply behind), if_pos,
      bind_of_some (goTo_apply behind), digits, bind_of_some (takeWhile_apply Char.isDigit behind)]
    · rfl
    · have some : (rest.takeWhile Char.isDigit).isEmpty = false :=
        eq_false_of_ne_true filled
      rw [Text.any_head?, some]
      rfl
  | case3 cs other =>
    refine ⟨place, here, ?_⟩
    rw [if_neg]
    · rfl
    · intro first
      obtain ⟨rest, rfl⟩ := List.head?_eq_some_iff.mp first
      exact other rest rfl

theorem exponent_apply (here : (ofChars text).from? place = some cs) :
    ∃ next, (ofChars text).from? next = some (Double.takeExponent cs).2 ∧
      exponent (ofChars text) place = .ok (some (Double.takeExponent cs).1.isSome, next) := by
  rw [exponent, bind_of_some rfl]
  fun_cases Double.takeExponent cs with
  | case1 c rest letter negative body signed ds empty =>
    obtain ⟨mid, between, marked⟩ := nextIsEither_of_mark here letter
    obtain ⟨signs, after, there, read⟩ := sign_apply between
    rw [signed] at there
    refine ⟨place, here, ?_⟩
    rw [bind_of_some marked, if_pos rfl, bind_of_some read, digits,
      bind_of_some (takeWhile_apply Char.isDigit there), if_pos empty, bind_of_some (goTo_apply here)]
    rfl
  | case2 c rest letter negative body signed ds n filled =>
    obtain ⟨mid, between, marked⟩ := nextIsEither_of_mark here letter
    obtain ⟨signs, after, there, read⟩ := sign_apply between
    rw [signed] at there
    refine ⟨_, from?_dropWhile Char.isDigit there, ?_⟩
    rw [bind_of_some marked, if_pos rfl, bind_of_some read, digits,
      bind_of_some (takeWhile_apply Char.isDigit there), if_neg filled]
    rfl
  | case3 c rest other =>
    refine ⟨place, here, ?_⟩
    have unmarked := nextIsEither_of_other here (c := 'e') (d := 'E') (by rintro e ⟨rfl⟩; exact other)
    rw [bind_of_some unmarked]
    rfl
  | case4 =>
    refine ⟨place, here, ?_⟩
    have unmarked := nextIsEither_of_other here (c := 'e') (d := 'E') (by rintro e ⟨⟩)
    rw [bind_of_some unmarked]
    rfl

theorem tracks_number : Tracks ops text size true number Grammar.number := by
  intro place cs here short
  obtain ⟨_, second, atBody, readSign⟩ := sign_apply here
  rw [number, Grammar.number, Rule.ofOption, bind_of_some rfl, bind_of_some readSign, digits]
  rcases signed : Double.takeSign cs with ⟨negative, body⟩
  rw [signed] at atBody
  rw [bind_of_some (takeWhile_apply Char.isDigit atBody)]
  dsimp only
  split
  · exact .missed (from?_dropWhile Char.isDigit atBody)
  · rename_i whole
    obtain ⟨third, atMid, readFraction⟩ := fraction_apply (from?_dropWhile Char.isDigit atBody)
    rcases pointed : Double.takeFraction (body.dropWhile Char.isDigit) with ⟨part, mid⟩
    rw [pointed] at atMid readFraction
    obtain ⟨last, atRest, readExponent⟩ := exponent_apply atMid
    rcases scaled : Double.takeExponent mid with ⟨power, rest⟩
    simp only [scaled] at atRest readExponent
    obtain ⟨front, rfl, filled, value⟩ :=
      numeralValue?_of_parts signed (by simpa using whole) pointed scaled
    have shorter : rest.length < (front ++ rest).length := by
      have := List.length_pos_iff.mpr filled
      rw [List.length_append]
      omega
    have cut : slice place last (ofChars text) last = .ok (some front, last) :=
      slice_apply here atRest
    rw [bind_of_some readFraction, bind_of_some readExponent, bind_of_some (peek_apply atRest)]
    cases rest with
    | nil =>
      rw [List.head?_nil, if_neg (by decide), bind_of_some rfl, bind_of_some cut, value]
      exact .found atRest (List.suffix_append _ _) fun _ => shorter
    | cons c tail =>
      have next : (c :: tail).head?.any isNamePart = isNamePart c := rfl
      dsimp only
      by_cases stuck : isNamePart c = true
      · rw [if_pos stuck, if_pos (next.trans stuck)]
        exact .missed atRest
      · rw [if_neg stuck, if_neg (next ▸ stuck), bind_of_some rfl, bind_of_some cut, value]
        exact .found atRest (List.suffix_append _ _) fun _ => shorter

end Reader

theorem quotedAfter_pair {start chunk cs : List Char} {inside : String}
    (free : ∀ c ∈ chunk, c ≠ '\'') :
    quotedAfter start inside (chunk ++ '\'' :: '\'' :: cs) =
      quotedAfter start (inside ++ String.ofList chunk ++ "'") cs := by
  rw [quotedAfter, quotedAfter, Text.readQuoted?_append free]
  cases found : Text.readQuoted? '\'' cs with
  | none => simp [Text.readQuoted?, found]
  | some read => simp [Text.readQuoted?, found, String.append_assoc]

theorem quotedAfter_end {start chunk cs : List Char} {inside : String}
    (free : ∀ c ∈ chunk, c ≠ '\'') (ends : cs.head? ≠ some '\'') :
    quotedAfter start inside (chunk ++ '\'' :: cs) =
      .ok (some (inside ++ String.ofList chunk, cs)) := by
  rw [quotedAfter, Text.readQuoted?_append free, Text.readQuoted?_close ends]
  simp

theorem quotedAfter_open {start chunk : List Char} {inside : String}
    (free : ∀ c ∈ chunk, c ≠ '\'') :
    quotedAfter start inside chunk = .error (.unexpected start) := by
  have open' := Text.readQuoted?_append free []
  rw [List.append_nil] at open'
  rw [quotedAfter, open']
  rfl

namespace Reader
variable {ops : Operators} {text cs rest : List Char} {size place : Nat}

theorem turn_text {start : Nat} {whole : List Char} (opened : (ofChars text).from? start = some whole)
    (inside : String) (here : (ofChars text).from? place = some cs) :
    Turn ops text cs (quotedAfter whole) (textStep start inside (ofChars text) place)
      (quotedAfter whole inside cs) := by
  have free : ∀ c ∈ cs.takeWhile (· ≠ '\''), c ≠ '\'' := fun c mem => by
    simpa using List.all_eq_true.mp List.all_takeWhile c mem
  have behind := from?_dropWhile (· ≠ '\'') here
  have stop := List.head?_dropWhile_not (· ≠ '\'') cs
  have parts := List.takeWhile_append_dropWhile (p := (· ≠ '\'')) (l := cs)
  rw [textStep, bind_of_some (takeWhile_apply _ here)]
  generalize cs.takeWhile (· ≠ '\'') = chunk at *
  generalize cs.dropWhile (· ≠ '\'') = after at *
  subst parts
  cases after with
  | nil =>
    rw [bind_of_some (nextIs_apply_other behind nofun), List.append_nil, quotedAfter_open free,
      if_neg Bool.false_ne_true, errorAt, bind_of_some (sliceFrom_apply opened)]
    exact .unexpected opened
  | cons c after =>
    obtain rfl : c = '\'' := by simpa using stop
    rw [bind_of_some (nextIs_apply_cons behind), if_pos rfl]
    by_cases doubled : after.head? = some '\''
    · obtain ⟨rest, rfl⟩ := List.head?_eq_some_iff.mp doubled
      rw [bind_of_some (nextIs_apply_cons (from?_cons behind)), quotedAfter_pair free,
        if_pos rfl]
      refine .again (from?_cons (from?_cons behind)) ⟨chunk ++ ['\'', '\''], by simp⟩ ?_
      rw [List.length_append, List.length_cons, List.length_cons]
      omega
    · rw [bind_of_some (nextIs_apply_other (from?_cons behind) doubled), quotedAfter_end free doubled,
        if_neg Bool.false_ne_true]
      exact .done (from?_cons behind) ⟨chunk ++ ['\''], by simp⟩

theorem tracks_text : Tracks ops text size true Reader.text Grammar.text := by
  apply tracks_place
  intro start whole opened
  apply (tracks_char '\'').bind_reads
  intro _
  apply (tracks_loop (fun inside place cs here _ => turn_text opened inside here) "").bind
  intro inside
  exact tracks_pure _

theorem tracks_nextIsEither {β : Type} {c d : Char} {next : Reader β} {next' : Rule β}
    (tracks : Tracks ops text (size - 1) false next next') :
    Tracks ops text size true (do if ← nextIsEither c d then next else failure)
      (do Rule.char c <|> Rule.char d; next') := by
  intro place cs here short
  by_cases mark : ∃ e, cs.head? = some e ∧ (e = c ∨ e = d)
  · obtain ⟨e, first, mark⟩ := mark
    obtain ⟨rest, rfl⟩ := List.head?_eq_some_iff.mp first
    obtain ⟨after, there, moved⟩ := nextIsEither_of_mark here mark
    have read : (Rule.char c <|> Rule.char d).Gives (e :: rest) () rest := by
      by_cases same : e = c
      · subst same
        exact (Rule.gives_char e).orElse
      · obtain rfl := mark.resolve_left same
        have other : (e :: rest).head? ≠ some c := by simpa using same
        exact (Rule.misses_char other).orElse (Rule.gives_char e)
    rw [bind_of_some moved, read.bind_eq, if_pos rfl]
    have less : rest.length < (e :: rest).length := Nat.lt_succ_self _
    exact (tracks after rest there (by omega)).back (List.suffix_cons e rest) fun _ => .inr less
  · have other : ∀ e, cs.head? = some e → ¬(e = c ∨ e = d) := fun e first same =>
      mark ⟨e, first, same⟩
    have first := Rule.misses_char fun same => other c same (.inl rfl)
    have second := Rule.misses_char fun same => other d same (.inr rfl)
    have missed : (do Rule.char c <|> Rule.char d; next' : Rule β).Misses cs :=
      (first.orElse_misses second).bind
    rw [bind_of_some (nextIsEither_of_other here other), if_neg Bool.false_ne_true, missed]
    exact .missed here

theorem tracks_bytes : Tracks ops text size true bytes Grammar.bytes := by
  apply tracks_place
  intro start whole opened
  apply tracks_nextIsEither
  apply (tracks_char '\'').weaken.bind
  intro _
  apply (tracks_takeWhile _).bind
  intro ds place cs here short
  by_cases first : cs.head? = some '\''
  · obtain ⟨rest, rfl⟩ := List.head?_eq_some_iff.mp first
    have there := from?_cons here
    rw [bind_of_some (nextIs_apply_cons here), if_pos rfl]
    cases Text.unhex? ds with
    | some bs => exact .found there (List.suffix_cons _ rest) nofun
    | none =>
      change Follows ops text _ _ (errorAt start (ofChars text) _) _
      rw [errorAt, bind_of_some (sliceFrom_apply opened)]
      exact .unexpected opened
  · rw [bind_of_some (nextIs_apply_other here first), if_neg Bool.false_ne_true]
    cases Text.unhex? ds with
    | some bs =>
      dsimp only
      rw [Rule.Misses.orElse_eq (Rule.misses_char first).seqRight]
      exact tracks_errorAt opened place cs here short
    | none => exact tracks_errorAt opened place cs here short

theorem tracks_timestamp (now : LocalTime) :
    Tracks ops text size true (timestamp now) (Grammar.timestamp now) := by
  apply tracks_place
  intro start whole opened
  apply (tracks_char '#').bind_reads
  intro _
  apply (tracks_takeWhile _).bind
  intro content
  dsimp only
  split
  · exact tracks_failure
  · apply (tracks_char '#').weaken.bind
    intro _
    cases Timestamp.Literal.read? now (Text.skipBlank (Text.skipBlank content).reverse).reverse with
    | some t => exact tracks_pure _
    | none => exact tracks_errorAt opened

theorem restores_constant (word : String) (v : Value) :
    Restores (keyword word *> pure (Expr.value v)) :=
  (restores_token word false).bind fun _ => answers_pure (Expr.value v)

theorem tracks_constant : Tracks ops text size true constant Grammar.constant := by
  have named {word : String} (spelled : word ≠ "") (v : Value) :
      Tracks ops text size true (keyword word *> pure (.value v))
        (Grammar.keyword word *> pure (Expr.value v)) :=
    (tracks_token spelled false).bind_reads fun _ => tracks_pure _
  refine (named (by decide) _).orElse (restores_constant _ _) ?_
  exact (named (by decide) _).orElse (restores_constant _ _) (named (by decide) _)

end Reader
end Grammar
end SqlFragment
