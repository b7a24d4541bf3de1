import SqlFragment.Proofs.Grammar.Token
import SqlFragment.Proofs.Grammar.Tracking

/-
Readers of tokens, names and paths in step with their rules. The byte at which a token ends is counted
from the front while its characters are compared, and is where the characters behind it begin.
-/
namespace SqlFragment.Grammar
open Source

theorem blanksEnd_eq (front : Nat) (cs : List Char) :
    ∃ read, cs = read ++ Text.skipBlank cs ∧
      blanksEnd front front cs = (⟨front + bytesOf read, Text.skipBlank cs⟩, front + bytesOf read) := by
  induction cs generalizing front with
  | nil => exact ⟨[], rfl, rfl⟩
  | cons c cs ih =>
    rw [blanksEnd, Text.skipBlank, List.dropWhile_cons]
    split
    · obtain ⟨read, same, ends⟩ := ih (front + c.utf8Size)
      rw [Text.skipBlank] at same ends
      refine ⟨c :: read, congrArg (c :: ·) same, ?_⟩
      rw [ends, bytesOf, Nat.add_assoc]
    · exact ⟨[], rfl, rfl⟩

theorem tokenEnd?_eq (t cs : List Char) (front : Nat) :
    match afterToken? t cs with
    | some rest => ∃ read, cs = read ++ rest ∧
        tokenEnd? t ⟨front, cs⟩ front = some (front + bytesOf read)
    | none => tokenEnd? t ⟨front, cs⟩ front = none := by
  fun_induction afterToken? t cs generalizing front with
  | case1 cs => exact ⟨[], rfl, rfl⟩
  | case2 token c tail blank ih =>
    obtain ⟨read, same, ends⟩ := blanksEnd_eq (front + c.utf8Size) tail
    have stepped : tokenEnd? (' ' :: token) ⟨front, c :: tail⟩ front =
        tokenEnd? token ⟨front + c.utf8Size + bytesOf read, Text.skipBlank tail⟩
          (front + c.utf8Size + bytesOf read) := by
      simp only [tokenEnd?, Indexed.next?, blank, ↓reduceIte, ends]
    have later := ih (front + c.utf8Size + bytesOf read)
    rw [stepped]
    split at later
    · obtain ⟨more, split, stop⟩ := later
      refine ⟨c :: (read ++ more), ?_, ?_⟩
      · rw [List.cons_append, List.append_assoc, ← split, ← same]
      · rw [stop]
        simp only [bytesOf, bytesOf_append, Nat.add_assoc]
    · exact later
  | case3 token c tail visible => simp [tokenEnd?, Indexed.next?, visible]
  | case4 token => simp [tokenEnd?, Indexed.next?]
  | case5 t token visible c tail same ih =>
    have stepped : tokenEnd? (t :: token) ⟨front, c :: tail⟩ front =
        tokenEnd? token ⟨front + c.utf8Size, tail⟩ (front + c.utf8Size) := by
      simp only [tokenEnd?, Indexed.next?, same, ↓reduceIte]
    have later := ih (front + c.utf8Size)
    rw [stepped]
    split at later
    · obtain ⟨more, rfl, stop⟩ := later
      refine ⟨c :: more, rfl, ?_⟩
      rw [stop, bytesOf, Nat.add_assoc]
    · exact later
  | case6 t token visible c tail other =>
    simp only [tokenEnd?, Indexed.next?, other, ↓reduceIte]
  | case7 t token visible =>
    simp only [tokenEnd?, Indexed.next?]

theorem dotted_ne_error (cs : List Char) (fault : Fault) :
    (Rule.char '.' *> name) cs ≠ .error fault := by
  by_cases first : cs.head? = some '.'
  · obtain ⟨tail, rfl⟩ := List.head?_eq_some_iff.mp first
    have read : (Rule.char '.' *> name) ('.' :: tail) = name tail := rfl
    rw [read]
    nofun
  · have missed : (Rule.char '.' *> name) cs = .ok none := (Rule.misses_char first).seqRight
    rw [missed]
    nofun

theorem segments_succ_of_misses {cs : List Char} (misses : (Rule.char '.' *> name).Misses cs)
    (most : Nat) : (segments (most + 1)).Gives cs [] cs := by
  refine Rule.Misses.orElse ?_ Rule.gives_pure
  obtain first | ⟨_, mid, first, second⟩ := Rule.misses_bind misses
  · exact first.bind
  · exact first.bind_misses second.bind

theorem segments_succ_of_gives {cs rest last : List Char} {segment : String} {most : Nat}
    {more : Path} (found : (Rule.char '.' *> name).Gives cs segment rest)
    (later : (segments most).Gives rest more last) :
    (segments (most + 1)).Gives cs (segment :: more) last := by
  obtain ⟨_, mid, point, named⟩ := Rule.gives_seqRight found
  refine Rule.Gives.orElse (point.bind (named.bind (later.bind ?_)))
  exact Rule.gives_pure

theorem segments_answer (most : Nat) (cs : List Char) :
    ∃ more rest, (segments most).Gives cs more rest := by
  induction most generalizing cs with
  | zero => exact ⟨[], cs, Rule.gives_pure⟩
  | succ most ih =>
    cases read : (Rule.char '.' *> name) cs with
    | error fault => exact absurd read (dotted_ne_error cs fault)
    | ok result =>
      cases result with
      | none => exact ⟨[], cs, segments_succ_of_misses read most⟩
      | some result =>
        obtain ⟨segment, rest⟩ := result
        obtain ⟨more, last, later⟩ := ih rest
        exact ⟨segment :: more, last, segments_succ_of_gives read later⟩

/-- Segments behind those that are there already; a path has no more than four. -/
def segmentsAfter (before : Path) : Rule Path := do
  let more ← segments (4 - before.length)
  return before ++ more

theorem segmentsAfter_of_none {before : Path} {cs : List Char}
    (none : (segments (4 - before.length)).Gives cs [] cs) :
    segmentsAfter before cs = .ok (some (before, cs)) := by
  rw [segmentsAfter, none.bind_eq, List.append_nil]
  rfl

theorem segmentsAfter_of_gives {before : Path} {segment : String} {cs rest : List Char}
    (open4 : before.length < 4) (found : (Rule.char '.' *> name).Gives cs segment rest) :
    segmentsAfter before cs = segmentsAfter (before ++ [segment]) rest := by
  obtain ⟨more, last, later⟩ := segments_answer (4 - (before ++ [segment]).length) rest
  have count : 4 - before.length = 4 - (before ++ [segment]).length + 1 := by
    rw [List.length_append, List.length_singleton]
    omega
  have first : (segments (4 - before.length)).Gives cs (segment :: more) last := by
    rw [count]
    exact segments_succ_of_gives found later
  rw [segmentsAfter, segmentsAfter, first.bind_eq, later.bind_eq, List.append_cons]

namespace Reader
variable {ops : Operators} {text cs rest : List Char} {size place : Nat}

theorem looks_tokenEnd (t : String) (right : Bool) : Looks (tokenEnd t right) := by
  apply (looks_place.bind fun start => looks_rest.bind fun cs => looks_pure _).bind
  intro o
  split
  · rename_i stop
    apply ((looks_sliceFrom stop).bind fun _ => looks_pure _).bind
    intro fits
    split
    · exact looks_pure _
    · exact looks_pure none
  · exact looks_pure none

theorem restores_token (t : String) (right : Bool) : Restores (token t right) := by
  apply (looks_tokenEnd t right).restores_bind
  intro o
  split
  · exact (answers_goTo _).restores
  · exact restores_failure

theorem matchToken_apply (t : String) (here : (ofChars text).from? place = some cs) :
    matchToken t (ofChars text) place =
      .ok (some ((tokenEnd? t.toList ⟨0, cs⟩ 0).map (place + ·)), place) :=
  bind_of_some (rest_apply here)

theorem tokenEnd_of_none {t : String} {right : Bool} (here : (ofChars text).from? place = some cs)
    (missed : afterToken? t.toList cs = none) :
    tokenEnd t right (ofChars text) place = .ok (some none, place) := by
  have none := tokenEnd?_eq t.toList cs 0
  rw [missed] at none
  rw [tokenEnd, bind_of_some (matchToken_apply t here), none]
  rfl

/-- The end of a token is where the characters behind it begin. -/
theorem tokenEnd_of_some {t : String} {right : Bool} (here : (ofChars text).from? place = some cs)
    (found : afterToken? t.toList cs = some rest) :
    ∃ stop, (ofChars text).from? stop = some rest ∧ rest <:+ cs ∧
      tokenEnd t right (ofChars text) place =
        .ok (some (if endsBefore t.toList right rest then some stop else none), place) := by
  have ends := tokenEnd?_eq t.toList cs 0
  rw [found] at ends
  obtain ⟨read, rfl, ends⟩ := ends
  rw [Nat.zero_add] at ends
  have there := from?_append here
  refine ⟨place + bytesOf read, there, List.suffix_append read rest, ?_⟩
  have fitting : fits t (place + bytesOf read) right (ofChars text) place =
      .ok (some (endsBefore t.toList right rest), place) := bind_of_some (sliceFrom_apply there)
  rw [tokenEnd, bind_of_some (matchToken_apply t here), ends]
  simp only [Option.map_some]
  rw [bind_of_some fitting]
  split <;> rfl

theorem tracks_token {t : String} (spelled : t ≠ "") (right : Bool) :
    Tracks ops text size true (token t right) (Grammar.token t right) := by
  intro place cs here short
  rw [token, Grammar.token, Rule.ofOption]
  cases found : afterToken? t.toList cs with
  | none =>
    rw [bind_of_some (tokenEnd_of_none here found)]
    exact .missed here
  | some rest =>
    obtain ⟨stop, there, behind, ends⟩ := tokenEnd_of_some here found
    rw [bind_of_some ends]
    dsimp only
    split
    · have moved : goTo stop (ofChars text) place = .ok (some (), stop) := goTo_apply there
      change Follows ops text cs true (goTo stop (ofChars text) place) _
      rw [moved]
      have consumed := afterToken?_length found
      have some : t.toList.length ≠ 0 := by simpa using spelled
      exact .found there behind fun _ => by omega
    · exact .missed here

theorem tracks_comesNext (word : String) :
    Tracks ops text size false (comesNext word) (Grammar.comesNext word) := by
  intro place cs here short
  rw [comesNext, Grammar.comesNext, Grammar.keyword, Grammar.token, Rule.ofOption]
  cases found : afterToken? word.toList cs with
  | none =>
    rw [bind_of_some (tokenEnd_of_none here found)]
    exact .stays here
  | some rest =>
    obtain ⟨stop, there, behind, ends⟩ := tokenEnd_of_some here found
    rw [bind_of_some ends]
    dsimp only
    split
    · exact .stays here
    · exact .stays here

theorem tracks_name : Tracks ops text size true name Grammar.name := by
  intro place cs here short
  rw [name, bind_of_some (peek_apply here), Grammar.name, Rule.ofOption]
  cases cs with
  | nil => exact .missed here
  | cons c cs =>
    simp only [List.head?_cons]
    split
    · rename_i starts
      rw [map_of_some String.ofList (takeWhile_apply isNamePart here)]
      have taken : (c :: cs).takeWhile isNamePart ≠ [] := by simp [isNamePart, starts]
      exact .found (from?_dropWhile isNamePart here) (List.dropWhile_suffix _)
        fun _ => Text.length_dropWhile_lt taken
    · exact .missed here

theorem turn_path (before : Path) (here : (ofChars text).from? place = some cs)
    (short : cs.length < size) :
    Turn ops text cs segmentsAfter (pathStep before (ofChars text) place)
      (segmentsAfter before cs) := by
  rw [pathStep]
  split
  · rename_i more
    have dotted : Tracks ops text size true (char '.' *> name) (Rule.char '.' *> Grammar.name) :=
      (tracks_char '.').bind_reads fun _ => tracks_name.weaken
    have follows := dotted.attempt place cs here short
    have back := restores_attempt (char '.' *> name) (ofChars text) place
    rw [bind_apply, optional, observe]
    generalize attempt (char '.' *> name) (ofChars text) place = outcome at follows back
    generalize result : (Rule.char '.' *> Grammar.name) cs = given at follows
    cases follows with
    | found there behind shorter =>
      rw [segmentsAfter_of_gives more result]
      exact .again there behind (shorter rfl)
    | missed there =>
      cases back _ rfl
      obtain ⟨most, count⟩ := Nat.exists_eq_add_of_lt more
      have none := segments_succ_of_misses result most
      rw [segmentsAfter_of_none (by rwa [show 4 - before.length = most + 1 by omega])]
      exact .done here (List.suffix_refl cs)
    | unexpected there => exact absurd result (dotted_ne_error cs _)
    | refused own => exact absurd result (dotted_ne_error cs _)
  · rename_i full
    have none : (segments (4 - before.length)).Gives cs [] cs := by
      rw [Nat.sub_eq_zero_of_le (Nat.le_of_not_lt full)]
      exact Rule.gives_pure
    rw [segmentsAfter_of_none none]
    exact .done here (List.suffix_refl cs)

theorem tracks_path : Tracks ops text size true path Grammar.path := by
  apply tracks_name.bind_reads
  intro first
  have joined : (segments 3 >>= fun rest => pure (Expr.column (first :: rest))) =
      segmentsAfter [first] >>= fun all => pure (.column all) := by
    rw [segmentsAfter, Rule.bind_assoc]
    rfl
  rw [joined]
  apply (tracks_loop (fun before place cs => turn_path before) [first]).bind
  intro all
  exact tracks_pure _

theorem tracks_parameter : Tracks ops text size true parameter Grammar.parameter := by
  apply (tracks_char ':').bind_reads
  intro _
  apply (tracks_takeWhile isParameterPart).bind
  intro cs
  split
  · exact tracks_failure
  · exact tracks_pure _

end Reader

end SqlFragment.Grammar
