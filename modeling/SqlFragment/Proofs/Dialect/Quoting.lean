import SqlFragment.Dialect.Basic
import SqlFragment.Proofs.Text.RoundTrip

/-
Quoted names and strings, read the way a dialect reads them. Whatever a name or a string holds, its
token ends where the writer ended it, so nothing of it is taken for the text that follows.
-/
namespace SqlFragment

namespace Text

/-- Reads a token up to its closing quote, the opening one being read already: `escape` makes the
next character stand for itself, and so does a closing quote before another one. -/
def readEscaped? (escape close : Char) : List Char → Option (List Char × List Char)
  | [] => none
  | [c] => if c = close then some ([], []) else none
  | c :: d :: rest =>
    if c = escape then (readEscaped? escape close rest).map fun (text, after) => (d :: text, after)
    else if c = close then
      if d = close then
        (readEscaped? escape close rest).map fun (text, after) => (close :: text, after)
      else some ([], d :: rest)
    else (readEscaped? escape close (d :: rest)).map fun (text, after) => (c :: text, after)

section
variable {escape close c : Char} {cs after : List Char}

theorem doubled_cons_same (mark : Char) (cs : List Char) :
    doubled mark (mark :: cs) = mark :: mark :: doubled mark cs := by
  simp [doubled]

theorem doubled_cons_other (other : c ≠ close) (cs : List Char) :
    doubled close (c :: cs) = c :: doubled close cs := by
  simp [doubled, other]

theorem readEscaped?_cons_other (plain : c ≠ escape) (inside : c ≠ close) (more : cs ≠ []) :
    readEscaped? escape close (c :: cs) =
      (readEscaped? escape close cs).map fun (text, after) => (c :: text, after) := by
  cases cs with
  | nil => contradiction
  | cons d rest => rw [readEscaped?, if_neg plain, if_neg inside]

/-- Doubling the escape first and the closing quote after it keeps both. -/
theorem readEscaped?_doubled (apart : escape ≠ close) (ends : after.head? ≠ some close) :
    readEscaped? escape close (doubled close (doubled escape cs) ++ close :: after) =
      some (cs, after) := by
  induction cs with
  | nil =>
    cases after with
    | nil => simp [doubled, readEscaped?]
    | cons d rest =>
      have other : d ≠ close := by simpa using ends
      simp [doubled, readEscaped?, apart.symm, other]
  | cons c cs ih =>
    by_cases escaped : c = escape
    · subst escaped
      rw [doubled_cons_same, doubled_cons_other apart, doubled_cons_other apart, List.cons_append,
        List.cons_append, readEscaped?, if_pos rfl, ih, Option.map_some]
    · rw [doubled_cons_other escaped]
      by_cases closing : c = close
      · subst closing
        rw [doubled_cons_same, List.cons_append, List.cons_append, readEscaped?, if_neg escaped,
          if_pos rfl, if_pos rfl, ih, Option.map_some]
      · rw [doubled_cons_other closing, List.cons_append,
          readEscaped?_cons_other escaped closing (by simp), ih, Option.map_some]

end

theorem quoted_toList (opening close : Char) (text : String) :
    (quoted opening close text).toList = opening :: (doubled close text.toList ++ [close]) := by
  simp [quoted]

end Text

namespace Dialect

def readIdentifier? (d : Dialect) (cs : List Char) : Option (String × List Char) := do
  let cs ← Text.after? d.quotes.1 cs
  let (inside, after) ← Text.readQuoted? d.quotes.2 cs
  return (String.ofList inside, after)

def afterStringMark : Dialect → List Char → List Char
  | mssql, 'N' :: rest => rest
  | _, cs => cs

def readString? (d : Dialect) (cs : List Char) : Option (String × List Char) := do
  let cs ← Text.after? '\'' (d.afterStringMark cs)
  let (inside, after) ←
    match d with
    | mysql => Text.readEscaped? '\\' '\'' cs
    | _ => Text.readQuoted? '\'' cs
  return (String.ofList inside, after)

section
variable {d : Dialect} {after : List Char}

theorem readIdentifier?_escapeIdentifier (name : String) (ends : after.head? ≠ some d.quotes.2) :
    d.readIdentifier? ((d.escapeIdentifier name).toList ++ after) = some (name, after) := by
  have read := Text.readQuoted?_doubled d.quotes.2 name.toList after ends
  have opened : Text.after? d.quotes.1 ((d.escapeIdentifier name).toList ++ after) =
      some (Text.doubled d.quotes.2 name.toList ++ d.quotes.2 :: after) := by
    simp [escapeIdentifier, Text.quoted_toList, Text.after?]
  simp [readIdentifier?, opened, read]

theorem readString?_quoteString (text : String) (ends : after.head? ≠ some '\'') :
    d.readString? ((d.quoteString text).toList ++ after) = some (text, after) := by
  have plain := Text.readQuoted?_doubled '\'' text.toList after ends
  have escaped : Text.readEscaped? '\\' '\''
      (Text.doubled '\'' (Text.doubled '\\' text.toList) ++ '\'' :: after) =
      some (text.toList, after) := Text.readEscaped?_doubled (by decide) ends
  cases d <;>
    simp [readString?, quoteString, afterStringMark, Text.quoted_toList, Text.after?, plain, escaped]

def furtherSegments (d : Dialect) (path : Path) : List Char :=
  path.flatMap fun segment => '.' :: (d.escapeIdentifier segment).toList

theorem escapePath_cons (segment : String) (path : Path) :
    (d.escapePath (segment :: path)).toList =
      (d.escapeIdentifier segment).toList ++ d.furtherSegments path := by
  rw [escapePath, List.map_cons, Text.toList_intercalate_cons, List.flatMap_map]
  rfl

theorem furtherSegments_ends (path : Path) : (d.furtherSegments path).head? ≠ some d.quotes.2 := by
  cases path with
  | nil => simp [furtherSegments]
  | cons segment path =>
    have dot : '.' ≠ d.quotes.2 := by cases d <;> decide
    simpa [furtherSegments] using dot

/-- Where two paths go on alike, both go on with the same segment. -/
theorem segment_eq {name name' : String} {path path' : Path}
    (same : (d.escapeIdentifier name).toList ++ d.furtherSegments path =
      (d.escapeIdentifier name').toList ++ d.furtherSegments path') :
    name = name' ∧ d.furtherSegments path = d.furtherSegments path' := by
  have first := readIdentifier?_escapeIdentifier name (furtherSegments_ends (d := d) path)
  have second := readIdentifier?_escapeIdentifier name' (furtherSegments_ends (d := d) path')
  rw [same, second] at first
  simpa [eq_comm] using first

theorem furtherSegments_injective : Function.Injective d.furtherSegments := by
  intro path path' same
  induction path generalizing path' with
  | nil =>
    cases path' with
    | nil => rfl
    | cons segment' path' => simp [furtherSegments] at same
  | cons segment path ih =>
    cases path' with
    | nil => simp [furtherSegments] at same
    | cons segment' path' =>
      simp only [furtherSegments, List.flatMap_cons, List.cons_append, List.cons.injEq,
        true_and] at same
      obtain ⟨rfl, rest⟩ := segment_eq same
      rw [ih rest]

theorem escapePath_injective : Function.Injective d.escapePath := by
  intro path path' same
  have written (segment : String) (path : Path) :
      d.escapePath (segment :: path) ≠ d.escapePath [] := by
    intro empty
    have chars := congrArg String.toList empty
    rw [escapePath_cons, escapeIdentifier, Text.quoted_toList] at chars
    simp [escapePath] at chars
  cases path with
  | nil =>
    cases path' with
    | nil => rfl
    | cons segment' path' => exact absurd same.symm (written segment' path')
  | cons segment path =>
    cases path' with
    | nil => exact absurd same (written segment path)
    | cons segment' path' =>
      have chars := congrArg String.toList same
      rw [escapePath_cons, escapePath_cons] at chars
      obtain ⟨rfl, rest⟩ := segment_eq chars
      rw [furtherSegments_injective rest]

end

/-- Names and strings cannot leave their quotes: each token is read back as the text it was written
for, up to the text that follows, and so no two paths are written alike. -/
theorem quotes_hold_any_text (d : Dialect) :
    (∀ name after, after.head? ≠ some d.quotes.2 →
      d.readIdentifier? ((d.escapeIdentifier name).toList ++ after) = some (name, after)) ∧
    (∀ text after, after.head? ≠ some '\'' →
      d.readString? ((d.quoteString text).toList ++ after) = some (text, after)) ∧
    Function.Injective d.escapePath :=
  ⟨fun name _ ends => readIdentifier?_escapeIdentifier name ends,
    fun text _ ends => readString?_quoteString text ends, escapePath_injective⟩

theorem quotes_hold_forged_ends :
    (".[b]".toList.head? ≠ some mssql.quotes.2 ∧
      mssql.escapeIdentifier "a]; DROP" = "[a]]; DROP]" ∧
      mssql.readIdentifier? ("[a]]; DROP]".toList ++ ".[b]".toList) =
        some ("a]; DROP", ".[b]".toList)) ∧
    (" AND b".toList.head? ≠ some '\'' ∧
      mysql.quoteString "\\' OR 1" = "'\\\\'' OR 1'" ∧
      mysql.readString? ("'\\\\'' OR 1'".toList ++ " AND b".toList) =
        some ("\\' OR 1", " AND b".toList)) := by
  have name := (quotes_hold_any_text mssql).1 "a]; DROP" ".[b]".toList (by decide)
  have text := (quotes_hold_any_text mysql).2.1 "\\' OR 1" " AND b".toList (by decide)
  exact ⟨⟨by decide, rfl, name⟩, by decide, rfl, text⟩

end Dialect
end SqlFragment
