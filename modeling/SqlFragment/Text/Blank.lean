/-
Blank characters: the Unicode property White_Space, which is wider than the blanks of ASCII.
-/
namespace SqlFragment.Text

def isBlank (c : Char) : Bool :=
  let code := c.toNat
  (9 ≤ code && code ≤ 13) || code == 32 || code == 133 || code == 160 || code == 5760 ||
    (8192 ≤ code && code ≤ 8202) || code == 8232 || code == 8233 || code == 8239 ||
    code == 8287 || code == 12288

def skipBlank (cs : List Char) : List Char := cs.dropWhile isBlank

theorem skipBlank_length_le (cs : List Char) : (skipBlank cs).length ≤ cs.length :=
  (List.dropWhile_sublist isBlank).length_le

def trim (text : String) : String :=
  String.ofList (skipBlank (skipBlank text.toList).reverse).reverse

end SqlFragment.Text
