import HierarchyLint.Text.CaseTable

/-!
# Lower case

`lower` maps a text to lower case. Each character has a lower-case form of its own, with two
exceptions: the capital I with a dot becomes an `i` and a combining dot, and the capital sigma
becomes a final sigma at the end of a word. A sigma ends a word if a character with case comes
before it and none comes after it; characters that stand aside (accents, apostrophes, …) are
passed over on both sides.
-/

namespace HierarchyLint.Text

def inBlocks (blocks : List (Nat × Nat)) (n : Nat) : Bool :=
  blocks.any fun b => b.1 ≤ n && n ≤ b.2

def isCased (c : Char) : Bool := inBlocks casedBlocks c.toNat

/-- Whether the character stands aside when a neighbour with case is looked for. -/
def isCaseIgnorable (c : Char) : Bool := inBlocks caseIgnorableBlocks c.toNat

/-- The lower-case form of a code point, itself if no block covers it. -/
def lowerCode (n : Nat) : Nat :=
  match lowerBlocks.find? (·.covers n) with
  | some b => ((n : Int) + b.shift).toNat
  | none => n

/-- The lower-case form of a character that stands alone. -/
def lowerChar (c : Char) : List Char :=
  if c = 'İ' then ['i', '\u0307'] else [Char.ofNat (lowerCode c.toNat)]

/-- Whether the nearest character that does not stand aside has case. -/
def startsCased (cs : List Char) : Bool :=
  ((cs.dropWhile isCaseIgnorable).head?.map isCased).getD false

/-- The lower-case form of `cs`; `before` holds the characters in front of it, nearest first. -/
def lowerFrom (before : List Char) : List Char → List Char
  | [] => []
  | c :: cs =>
    let form :=
      if c = 'Σ' then [if startsCased before && !startsCased cs then 'ς' else 'σ']
      else lowerChar c
    form ++ lowerFrom (c :: before) cs

def lower (s : String) : String := String.ofList (lowerFrom [] s.toList)

end HierarchyLint.Text
