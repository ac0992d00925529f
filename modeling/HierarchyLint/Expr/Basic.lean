import HierarchyLint.Text.Case
import HierarchyLint.Text.Quoted

/-!
# Type expressions

A type expression is a name with a list of type expressions as parameters, such as
`map[key, list[item]]`. `postorder` lists the subexpressions of an expression, each after its
parameters; it keeps the pending visits on a stack of its own. `render` and `lowered` run over
that list and keep the results of the subexpressions that no parent has taken yet, latest first.
-/

namespace HierarchyLint

inductive TypeExpr where
  | node (name : String) (params : List TypeExpr)

/-- Whether a type of this name acts like a generic parameter: any single character does. -/
def isGenericName (name : String) : Bool := name.length == 1

namespace TypeExpr

def name : TypeExpr → String
  | node n _ => n

def params : TypeExpr → List TypeExpr
  | node _ ps => ps

def leaf (name : String) : TypeExpr := node name []

instance : Inhabited TypeExpr := ⟨leaf ""⟩

def isGeneric (e : TypeExpr) : Bool := isGenericName e.name

/-! ## Equality -/

mutual

def eqb : TypeExpr → TypeExpr → Bool
  | node m ps, node n qs => m == n && eqbs ps qs

def eqbs : List TypeExpr → List TypeExpr → Bool
  | [], [] => true
  | e :: es, f :: fs => eqb e f && eqbs es fs
  | _, _ => false

end

mutual

theorem eqb_iff : ∀ e f : TypeExpr, eqb e f = true ↔ e = f
  | node m ps, node n qs => by simp [eqb, eqbs_iff ps qs]

theorem eqbs_iff : ∀ es fs : List TypeExpr, eqbs es fs = true ↔ es = fs
  | [], [] => by simp [eqbs]
  | [], _ :: _ => by simp [eqbs]
  | _ :: _, [] => by simp [eqbs]
  | e :: es, f :: fs => by simp [eqbs, eqb_iff e f, eqbs_iff es fs]

end

instance : DecidableEq TypeExpr := fun e f =>
  decidable_of_iff (eqb e f = true) (eqb_iff e f)

/-! ## Size -/

mutual

def size : TypeExpr → Nat
  | node _ ps => 1 + sizes ps

def sizes : List TypeExpr → Nat
  | [] => 0
  | e :: es => size e + sizes es

end

theorem size_eq (e : TypeExpr) : e.size = 1 + sizes e.params := by
  cases e; rfl

/-! ## Postorder -/

/-- A pending visit: an expression comes up again when its parameters are done. -/
inductive Visit where
  | enter (e : TypeExpr)
  | leave (e : TypeExpr)

/-- The number of steps that a visit still takes. -/
def Visit.cost : Visit → Nat
  | enter e => 2 * e.size
  | leave _ => 1

def Visit.costs : List Visit → Nat
  | [] => 0
  | v :: pending => v.cost + costs pending

theorem Visit.costs_params (es : List TypeExpr) (pending : List Visit) :
    costs (es.map .enter ++ pending) = 2 * sizes es + costs pending := by
  induction es with
  | nil => simp [sizes]
  | cons e es ih => simp only [List.map_cons, List.cons_append, costs, cost, sizes, ih]; omega

/-- The expressions that the pending visits leave, in turn. -/
def visits : List Visit → List TypeExpr
  | [] => []
  | .leave e :: pending => e :: visits pending
  | .enter e :: pending => visits (e.params.map .enter ++ .leave e :: pending)
termination_by pending => Visit.costs pending
decreasing_by
  · simp [Visit.costs, Visit.cost]
  · simp only [Visit.costs_params, Visit.costs, Visit.cost, size_eq e]
    omega

/-- Every subexpression, each after its parameters. -/
def postorder (e : TypeExpr) : List TypeExpr := visits [.enter e]

/-! ## Rendering and lower case -/

/-- Renders `e` with the renderings of its parameters, which lie on top of `done`. -/
def renderStep (done : List String) (e : TypeExpr) : List String :=
  let count := e.params.length
  let text :=
    if e.params.isEmpty then e.name
    else e.name ++ Text.bracketed (done.take count).reverse
  text :: done.drop count

def render (e : TypeExpr) : String :=
  (e.postorder.foldl renderStep []).headD ""

/-- Lowers the name of `e` above its lowered parameters, which lie on top of `done`. -/
def lowerStep (done : List TypeExpr) (e : TypeExpr) : List TypeExpr :=
  let count := e.params.length
  node (Text.lower e.name) (done.take count).reverse :: done.drop count

def lowered (e : TypeExpr) : TypeExpr :=
  (e.postorder.foldl lowerStep []).headD default

/-! ## Other forms -/

/-- Puts a name above as many finished expressions as it has parameters. -/
def buildStep (done : List TypeExpr) (entry : String × Nat) : List TypeExpr :=
  node entry.1 (done.take entry.2).reverse :: done.drop entry.2

/-- The expression whose names, with their numbers of parameters, are listed in postorder. -/
def ofPostorder (entries : List (String × Nat)) : TypeExpr :=
  (entries.foldl buildStep []).headD default

mutual

def describe : TypeExpr → String
  | node name params =>
    "TypeStructure(name=" ++ Text.quoted name ++ ", params="
      ++ Text.parenthesized (describeAll params) ++ ")"

def describeAll : List TypeExpr → List String
  | [] => []
  | e :: es => describe e :: describeAll es

end

end TypeExpr

end HierarchyLint
