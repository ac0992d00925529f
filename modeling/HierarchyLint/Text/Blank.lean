/-!
# Blank characters

The characters that may stand between the tokens of a type expression: the ASCII controls from
the tab to the carriage return and from the file separator to the unit separator, the next-line
control, and every space, line and paragraph separator of Unicode.
-/

namespace HierarchyLint.Text

def isBlank (c : Char) : Bool :=
  let n := c.toNat
  (0x09 ≤ n && n ≤ 0x0D) || (0x1C ≤ n && n ≤ 0x20) || n == 0x85 || n == 0xA0 || n == 0x1680 ||
    (0x2000 ≤ n && n ≤ 0x200A) || n == 0x2028 || n == 0x2029 || n == 0x202F || n == 0x205F ||
    n == 0x3000

theorem isBlank_space : isBlank ' ' = true := by decide

end HierarchyLint.Text
