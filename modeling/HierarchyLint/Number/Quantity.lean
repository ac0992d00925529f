import HierarchyLint.Number.Double

/-!
# The number line

A `Quantity` is a quotient of integers or one of the two infinities, with one more element for
what is no number. Integers and doubles are compared on it exactly; what is no number is neither
equal to nor below anything.
-/

namespace HierarchyLint

/-- A point of the number line with its two ends. -/
inductive Quantity where
  | undefined
  | bottom
  | ratio (num : Int) (den : Nat)
  | top
  deriving DecidableEq, Repr

namespace Quantity

def ofInt (i : Int) : Quantity := ratio i 1

def ofDouble : Double → Quantity
  | .nan => undefined
  | .infinite negative => if negative then bottom else top
  | .finite negative m e =>
    match (Double.finite negative m e).toRatio? with
    | some (num, den) => ratio num den
    | none => undefined

def same : Quantity → Quantity → Bool
  | bottom, bottom => true
  | top, top => true
  | ratio a b, ratio c d => a * d == c * b
  | _, _ => false

def below : Quantity → Quantity → Bool
  | bottom, ratio _ _ => true
  | bottom, top => true
  | ratio _ _, top => true
  | ratio a b, ratio c d => a * d < c * b
  | _, _ => false

end Quantity

end HierarchyLint
