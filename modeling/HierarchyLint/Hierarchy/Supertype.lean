import HierarchyLint.Expr.Parser
import HierarchyLint.Hierarchy.Basic

/-!
# References to supertypes

Each text in the `fulfills` list of a type refers to a supertype. It is parsed as a type
expression, and the name at its front is looked up among the declared types.
-/

namespace HierarchyLint

inductive Resolution where
  | unparseable (e : ParseError)
  /-- No declared type has the name in front of the expression. -/
  | undefined (expr : TypeExpr)
  | declared (expr : TypeExpr) (target : String)

structure SupertypeRef where
  /-- The declaring type. -/
  source : String
  /-- The reference as it is written. -/
  text : String
  resolution : Resolution

namespace SupertypeRef

/-- The declared type that the reference leads to. -/
def target? (r : SupertypeRef) : Option String :=
  match r.resolution with
  | .declared _ target => some target
  | _ => none

def expr? (r : SupertypeRef) : Option TypeExpr :=
  match r.resolution with
  | .unparseable _ => none
  | .undefined e => some e
  | .declared e _ => some e

def error? (r : SupertypeRef) : Option ParseError :=
  match r.resolution with
  | .unparseable e => some e
  | _ => none

end SupertypeRef

/-- Parses a reference and looks up the name in front of it among the lower-case forms of the
declared names. -/
def Resolution.ofText (canonical : Table String) (text : String) : Resolution :=
  match TypeExpr.parse text with
  | .error e => .unparseable e
  | .ok e =>
    match canonical.get? (Text.lower e.name) with
    | none => .undefined e
    | some target => .declared e target

namespace Hierarchy

/-- The references of every declared type, in the order in which they are written. -/
def supertypes (h : Hierarchy) : Table (List SupertypeRef) :=
  let canonical := h.canonical
  h.decls.mapValues fun source d =>
    d.fulfills.map fun text => ⟨source, text, .ofText canonical text⟩

end Hierarchy

end HierarchyLint
