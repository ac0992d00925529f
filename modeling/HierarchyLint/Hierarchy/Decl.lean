import HierarchyLint.Text.Quoted

/-!
# Declarations

A type is declared with the supertypes that it fulfills, as the texts of type expressions, and
with its parameters. A parameter has a name and a variance; a variance that is none of the three
known ones is kept as it was written.
-/

namespace HierarchyLint

inductive Variance where
  | co
  | contra
  | inv
  | other (text : String)
  deriving DecidableEq, Repr

namespace Variance

def text : Variance → String
  | co => "co"
  | contra => "contra"
  | inv => "inv"
  | other text => text

/-- The known variance of the given spelling, if there is one. -/
def ofText (text : String) : Variance :=
  if text = "co" then co
  else if text = "contra" then contra
  else if text = "inv" then inv
  else other text

def isKnown : Variance → Bool
  | other _ => false
  | _ => true

theorem text_ofText (text : String) : (ofText text).text = text := by
  unfold ofText
  repeat' split
  all_goals simp_all [Variance.text]

def describe : Variance → String
  | co => "<Variance.CO: 'co'>"
  | contra => "<Variance.CONTRA: 'contra'>"
  | inv => "<Variance.INV: 'inv'>"
  | other text => Text.quoted text

end Variance

structure ParamDecl where
  name : String
  variance : Variance
  deriving DecidableEq, Repr

def ParamDecl.describe (p : ParamDecl) : String :=
  "ParamDecl(name=" ++ Text.quoted p.name ++ ", variance=" ++ p.variance.describe ++ ")"

structure TypeDecl where
  /-- The texts of the supertypes. -/
  fulfills : List String := []
  params : List ParamDecl := []
  deriving DecidableEq, Repr

def TypeDecl.describe (d : TypeDecl) : String :=
  "TypeDecl(fulfills=" ++ Text.parenthesized (d.fulfills.map Text.quoted)
    ++ ", params=" ++ Text.parenthesized (d.params.map ParamDecl.describe) ++ ")"

end HierarchyLint
