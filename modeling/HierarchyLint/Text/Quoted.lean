import HierarchyLint.Text.Printable

/-!
# Quoted text

A text inside a sequence or a record is written in quotes: single ones, unless the text holds a
single quote and no double one. The quote itself, the backslash and every character that does not
print are escaped, the latter by the shortest of `\xhh`, `\uhhhh` and `\Uhhhhhhhh`.
-/

namespace HierarchyLint.Text

/-- The number in lower-case hexadecimal digits, filled up with zeros to the given width. -/
def hex (width n : Nat) : String :=
  String.ofList (List.leftpad width '0' (Nat.toDigits 16 n))

def hexEscape (c : Char) : String :=
  let n := c.toNat
  if n ≤ 0xFF then "\\x" ++ hex 2 n
  else if n ≤ 0xFFFF then "\\u" ++ hex 4 n
  else "\\U" ++ hex 8 n

def quoteMark (s : String) : Char :=
  if s.toList.contains '\x27' && !s.toList.contains '\x22' then '\x22' else '\x27'

/-- How a character is written between the marks. -/
def quotedChar (mark c : Char) : String :=
  if c = mark || c = '\\' then "\\" ++ String.singleton c
  else if c = '\n' then "\\n"
  else if c = '\r' then "\\r"
  else if c = '\t' then "\\t"
  else if isPrintable c then String.singleton c
  else hexEscape c

def quoted (s : String) : String :=
  let mark := quoteMark s
  String.singleton mark ++ String.join (s.toList.map (quotedChar mark)) ++ String.singleton mark

/-- The texts in square brackets, set apart by commas. -/
def bracketed (items : List String) : String := "[" ++ ", ".intercalate items ++ "]"

/-- The texts in round brackets; a comma follows an item that stands alone. -/
def parenthesized : List String → String
  | [item] => "(" ++ item ++ ",)"
  | items => "(" ++ ", ".intercalate items ++ ")"

end HierarchyLint.Text
