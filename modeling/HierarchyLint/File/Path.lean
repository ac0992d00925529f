/-!
# Paths

A path is a text of components between slashes. `Path` is its normal form, in which empty
components and single points are dropped; it is what messages show. The components that lead up
(`..`) stay.
-/

namespace HierarchyLint

/-- A path in normal form. -/
structure Path where
  /-- The slashes that an absolute path begins with; two of them keep a meaning of their own. -/
  root : String
  parts : List String
  deriving DecidableEq, Repr

namespace Path

def components (text : String) : List String := (text.toList.splitOn '/').map String.ofList

def ofText (text : String) : Path :=
  let slashes := (text.toList.takeWhile (· == '/')).length
  let root := if slashes = 0 then "" else if slashes = 2 then "//" else "/"
  ⟨root, (components text).filter fun p => p ≠ "" ∧ p ≠ "."⟩

/-- The path as a text; the empty path is a point. -/
def text (p : Path) : String :=
  if p.root = "" ∧ p.parts = [] then "." else p.root ++ "/".intercalate p.parts

def name (p : Path) : String := p.parts.getLastD ""

end Path

end HierarchyLint
