/-!
# Console markup

In markup a tag is an opening square bracket, a lower-case letter or one of `#`, `/` and `@`, and
the shortest run of characters without a further opening bracket that ends in a closing one.
`escape` writes a text so that none of its tags is live: the backslashes in front of a tag are
doubled and one more is added. A single backslash at the end is doubled as well, so that it cannot
reach a tag written after the text.
-/

namespace HierarchyLint.Text.Markup

def startsTag (c : Char) : Bool :=
  ('a' ≤ c && c ≤ 'z') || c == '#' || c == '/' || c == '@'

/-- Whether a closing bracket comes before any opening one. -/
def closes : List Char → Bool
  | [] => false
  | c :: cs => if c = ']' then true else if c = '[' then false else closes cs

/-- Whether the characters after an opening bracket make a tag of it. -/
def opensTag : List Char → Bool
  | [] => false
  | c :: cs => startsTag c && closes cs

inductive Place where
  /-- Outside a tag, after a number of backslashes that are not written yet. -/
  | outside (slashes : Nat)
  | inside

/-- The escaped form of what follows the given place. -/
def escapeFrom : Place → List Char → List Char
  | .outside n, [] => List.replicate n '\\'
  | .outside n, c :: cs =>
    if c = '\\' then escapeFrom (.outside (n + 1)) cs
    else if c = '[' ∧ opensTag cs then
      List.replicate (2 * n + 1) '\\' ++ '[' :: escapeFrom .inside cs
    else List.replicate n '\\' ++ c :: escapeFrom (.outside 0) cs
  | .inside, [] => []
  | .inside, c :: cs => c :: escapeFrom (if c = ']' then .outside 0 else .inside) cs

/-- Doubles a backslash that stands alone at the end. -/
def guardEnd (cs : List Char) : List Char :=
  match cs.reverse with
  | '\\' :: '\\' :: _ => cs
  | '\\' :: _ => cs ++ ['\\']
  | _ => cs

/-- The text with its tags made harmless. -/
def escape (s : String) : String :=
  String.ofList (guardEnd (escapeFrom (.outside 0) s.toList))

end HierarchyLint.Text.Markup
