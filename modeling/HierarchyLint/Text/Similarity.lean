/-!
# Similar words

The similarity of two words is the share of their characters that match. The matching takes the
longest common block, the earliest one if there are several, and goes on in the same way on both
sides of it. `closest` picks the words that are most similar to a given one.
-/

namespace HierarchyLint.Text.Similarity

def commonStart : List Char → List Char → Nat
  | a :: as, b :: bs => if a = b then commonStart as bs + 1 else 0
  | _, _ => 0

/-- A common block of two words: where it begins in each, and how long it is. -/
structure Block where
  left : Nat
  right : Nat
  length : Nat
  deriving DecidableEq, Repr

/-- The longer block, the first one if there is no difference. -/
def Block.better (a b : Block) : Block := if a.length < b.length then b else a

/-- The longest common block, the earliest one in `as` and then in `bs`. -/
def longestBlock (as bs : List Char) : Block :=
  let starts := (List.range as.length).flatMap fun i =>
    (List.range bs.length).map fun j => ⟨i, j, commonStart (as.drop i) (bs.drop j)⟩
  starts.foldl Block.better ⟨0, 0, 0⟩

/-- The number of characters that match; `bound` limits how often blocks are taken. -/
def matchesUpTo : Nat → List Char → List Char → Nat
  | 0, _, _ => 0
  | bound + 1, as, bs =>
    let b := longestBlock as bs
    if b.length = 0 then 0
    else
      matchesUpTo bound (as.take b.left) (bs.take b.right) + b.length
        + matchesUpTo bound (as.drop (b.left + b.length)) (bs.drop (b.right + b.length))

def matchCount (as bs : List Char) : Nat := matchesUpTo as.length as bs

/-- Whether at least three fifths of the characters of both words match. -/
def isClose (matching total : Nat) : Bool := 3 * total ≤ 10 * matching

/-- A word with its matching and total numbers of characters. -/
structure Candidate where
  word : String
  matching : Nat
  total : Nat

/-- Whether the first candidate goes before the second: it is more similar, or as similar and later
in the alphabet. -/
def Candidate.before (a b : Candidate) : Bool :=
  let x := a.matching * b.total
  let y := b.matching * a.total
  y < x || (x == y && b.word ≤ a.word)

/-- Up to three of the words that are close to the given one, in alphabetical order. -/
def closest (word : String) (words : List String) : List String :=
  let candidates := words.map fun w =>
    (⟨w, matchCount w.toList word.toList, w.length + word.length⟩ : Candidate)
  let close := candidates.filter fun c => isClose c.matching c.total
  (((close.mergeSort Candidate.before).take 3).map Candidate.word).mergeSort

end HierarchyLint.Text.Similarity
