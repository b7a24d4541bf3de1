/-
Quoted tokens: inside the quotes, a closing quote is written twice and all else once. Main
statement: a written token reads back as its text, whatever follows it.
-/
namespace SqlFragment.Text

def doubled (close : Char) (cs : List Char) : List Char :=
  cs.flatMap fun c => if c = close then [c, c] else [c]

def quoted (opening close : Char) (text : String) : String :=
  String.ofList (opening :: doubled close text.toList ++ [close])

/-- Reads a token up to its closing quote, the opening one being read already: a doubled quote
stands for itself, a single one ends the token. Gives the text inside and what follows. -/
def readQuoted? (close : Char) : List Char → Option (List Char × List Char)
  | [] => none
  | [c] => if c = close then some ([], []) else none
  | c :: d :: rest =>
    if c = close then
      if d = close then (readQuoted? close rest).map fun (text, after) => (close :: text, after)
      else some ([], d :: rest)
    else (readQuoted? close (d :: rest)).map fun (text, after) => (c :: text, after)

theorem readQuoted?_doubled (close : Char) (cs after : List Char)
    (ends : after.head? ≠ some close) :
    readQuoted? close (doubled close cs ++ close :: after) = some (cs, after) := by
  induction cs with
  | nil =>
    cases after with
    | nil => simp [doubled, readQuoted?]
    | cons d rest =>
      have other : d ≠ close := by simpa using ends
      simp [doubled, readQuoted?, other]
  | cons c cs ih =>
    by_cases same : c = close
    · subst same
      simpa [doubled, readQuoted?] using ih
    · have cons : doubled close (c :: cs) = c :: doubled close cs := by simp [doubled, same]
      rw [cons, List.cons_append]
      cases tail : doubled close cs ++ close :: after with
      | nil => simp at tail
      | cons d rest => rw [readQuoted?, if_neg same, ← tail, ih, Option.map_some]

end SqlFragment.Text
