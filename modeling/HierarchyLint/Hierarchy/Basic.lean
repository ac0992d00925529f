import HierarchyLint.Text.Case
import HierarchyLint.Value.Basic

/-!
# Hierarchies

A hierarchy declares types by name. It is read from a mapping of any shape: keys become names by
their text, whatever cannot be used in a declaration is left out, and of several keys with one
name the first declares the type while the others are recorded as its duplicates.

Names differ by exact equality, but a reference ignores case: `resolve` finds the first declared
name with the same lower-case form. `caseGroups` lists the names that such references confuse.
-/

namespace HierarchyLint

/-! ## Declarations as values -/

/-- The parameter that a value declares; it needs at least a name. -/
def ParamDecl.ofValue? : Value → Option ParamDecl
  | .param p => some p
  | v => do
    let entries ← v.entries?
    let name ← (Value.get? "name" entries).bind Value.str?
    let variance :=
      match Value.get? "variance" entries with
      | none => .other ""
      | some .null => .other ""
      | some (.str s) => .ofText s
      | some v => .other v.text
    some ⟨name, variance⟩

def ParamDecl.toValue (p : ParamDecl) : Value :=
  .map [(.str "name", .str p.name), (.str "variance", .str p.variance.text)]

/-- The items of the list under the key; none if there is no list. -/
def itemsUnder (key : String) (entries : List (Value × Value)) : List Value :=
  ((Value.get? key entries).bind Value.items?).getD []

/-- The declaration that a value makes, without what cannot be used. -/
def TypeDecl.ofValue : Value → TypeDecl
  | .decl d => d
  | v =>
    match v.entries? with
    | none => {}
    | some entries =>
      { fulfills := (itemsUnder "fulfills" entries).filterMap Value.str?
        params := (itemsUnder "params" entries).filterMap ParamDecl.ofValue? }

/-- The declaration as a mapping; empty parts are left out. -/
def TypeDecl.toValue (d : TypeDecl) : Value :=
  let fulfills :=
    if d.fulfills.isEmpty then []
    else [(.str "fulfills", .list (d.fulfills.map Value.str))]
  let params :=
    if d.params.isEmpty then []
    else [(.str "params", .list (d.params.map ParamDecl.toValue))]
  .map (fulfills ++ params)

/-- The content of the declaration, with variances as texts. -/
def TypeDecl.content (d : TypeDecl) : List String × List (String × String) :=
  (d.fulfills, d.params.map fun p => (p.name, p.variance.text))

/-! ## Hierarchies -/

structure Hierarchy where
  decls : Table TypeDecl
  /-- The further keys with the name of a declared type, by that name. -/
  duplicates : List (String × List Value) := []

namespace Hierarchy

def empty : Hierarchy := { decls := .empty }

/-- Declares a type under the name that the key stands for, unless the name is taken. -/
def addEntry (h : Hierarchy) (entry : Value × Value) : Hierarchy :=
  let (key, value) := entry
  let name := key.text
  if h.decls.contains name then
    let add := fun old : Option (List Value) => old.getD [] ++ [key]
    { h with duplicates := Table.alterEntries name add h.duplicates }
  else { h with decls := h.decls.set name (.ofValue value) }

def ofEntries (entries : List (Value × Value)) : Hierarchy :=
  entries.foldl addEntry empty

/-- The hierarchy that a value declares, if it is a mapping. A hierarchy stands for itself. -/
def ofValue? : Value → Option Hierarchy
  | .map entries => some (ofEntries entries)
  | .hierarchy decls duplicates => some ⟨decls, duplicates⟩
  | _ => none

def toValue (h : Hierarchy) : Value :=
  .map (h.decls.entries.map fun e => (.str e.1, e.2.toValue))

def names (h : Hierarchy) : List String := h.decls.keys

/-- The first declared name of each lower-case form. -/
def canonical (h : Hierarchy) : Table String :=
  h.names.foldl (fun t name => t.insertNew (Text.lower name) name) .empty

/-- The declared name that a reference to the given name means. -/
def resolve (h : Hierarchy) (name : String) : Option String :=
  h.canonical.get? (Text.lower name)

/-- The groups of two or more declared names that differ only by case. -/
def caseGroups (h : Hierarchy) : List (List String) :=
  let groups : Table (List String) :=
    h.names.foldl (fun t name => t.push (Text.lower name) name) .empty
  groups.values.filter fun group => 1 < group.length

/-- Whether two hierarchies declare the same types, in whatever order. -/
def sameDecls (h k : Hierarchy) : Bool :=
  h.decls.size == k.decls.size &&
    h.decls.entries.all fun e =>
      (k.decls.get? e.1).map TypeDecl.content == some e.2.content

end Hierarchy

end HierarchyLint
