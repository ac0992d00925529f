import HierarchyLint.Expr.Error
import HierarchyLint.Hierarchy.Decl
import HierarchyLint.Number.Quantity
import HierarchyLint.Table

/-!
# Values

A `Value` is what a document holds before anything is known about its shape: scalars, lists,
tuples and mappings whose keys may be any value. A program that builds a hierarchy itself may also
put finished declarations, whole hierarchies and parse errors among them. Of any other object, such
as a date or a set, only so much is known as can be told from outside. `text` is how a value appears
in a message, `describe` how it appears inside another value.
-/

namespace HierarchyLint

inductive Value where
  | null
  | bool (b : Bool)
  | int (i : Int)
  | float (d : Double)
  | str (s : String)
  | list (items : List Value)
  | tuple (items : List Value)
  /-- A mapping in the order in which its keys were set. -/
  | map (entries : List (Value × Value))
  | error (e : ParseError)
  | param (p : ParamDecl)
  | decl (d : TypeDecl)
  /-- A hierarchy: its declarations by name, and by name the further keys with that name. -/
  | hierarchy (decls : Table TypeDecl) (duplicates : List (String × List Value))
  /-- Any other object: how it appears in a message and inside another value, whether it counts as
  nothing, and the plain value that a schema takes it for, such as the list of a set's items. -/
  | other (text description : String) (blank : Bool) (plain : Option Value)

namespace Value

instance : Inhabited Value := ⟨null⟩

/-! ## Text -/

def braced (pairs : List String) : String := "\x7b" ++ ", ".intercalate pairs ++ "\x7d"

mutual

/-- The value as part of another one: strings are quoted. -/
def describe : Value → String
  | null => "None"
  | bool b => if b then "True" else "False"
  | int i => toString i
  | float d => d.text
  | str s => Text.quoted s
  | list items => Text.bracketed (describeAll items)
  | tuple items => Text.parenthesized (describeAll items)
  | map entries => braced (describePairs entries)
  | error e => e.describe
  | param p => p.describe
  | decl d => d.describe
  | hierarchy decls _ =>
    "HierarchyDefinition("
      ++ braced (decls.entries.map fun entry => Text.quoted entry.1 ++ ": " ++ entry.2.describe)
      ++ ")"
  | other _ description _ _ => description

def describeAll : List Value → List String
  | [] => []
  | v :: vs => describe v :: describeAll vs

def describePairs : List (Value × Value) → List String
  | [] => []
  | (k, v) :: rest => (describe k ++ ": " ++ describe v) :: describePairs rest

end

/-- The value in a message: a string stands for itself, and an error for its message. -/
def text : Value → String
  | str s => s
  | error e => e.message
  | other text _ _ _ => text
  | v => v.describe

/-! ## Parts -/

/-- The entries of a mapping; a hierarchy maps names to declarations. -/
def entries? : Value → Option (List (Value × Value))
  | map entries => some entries
  | hierarchy decls _ => some (decls.entries.map fun entry => (str entry.1, decl entry.2))
  | _ => none

def get? (key : String) : List (Value × Value) → Option Value
  | [] => none
  | (str k, v) :: rest => if k = key then some v else get? key rest
  | _ :: rest => get? key rest

def items? : Value → Option (List Value)
  | list items => some items
  | tuple items => some items
  | _ => none

/-- The value that a schema takes a value for. -/
def plain : Value → Value
  | other _ _ _ (some v) => v
  | v => v

def str? : Value → Option String
  | str s => some s
  | _ => none

/-- The number that a scalar stands for; the truth values are one and zero. -/
def quantity? : Value → Option Quantity
  | bool b => some (.ofInt (if b then 1 else 0))
  | int i => some (.ofInt i)
  | float d => some (.ofDouble d)
  | _ => none

/-- Whether the value is empty, zero, false or nothing at all. -/
def isBlank : Value → Bool
  | null => true
  | bool b => !b
  | int i => i == 0
  | float d => (Quantity.ofDouble d).same (.ofInt 0)
  | str s => s.isEmpty
  | list items => items.isEmpty
  | tuple items => items.isEmpty
  | map entries => entries.isEmpty
  | hierarchy decls _ => decls.entries.isEmpty
  | other _ _ blank _ => blank
  | _ => false

/-! ## Comparing keys -/

mutual

/-- Whether two values are the same key: numbers by their size, other values by their parts, and
objects of which no parts are known by how they appear. -/
def sameKey : Value → Value → Bool
  | null, null => true
  | str a, str b => a == b
  | tuple as, tuple bs => sameKeys as bs
  | other _ a _ _, other _ b _ _ => a == b
  | a, b =>
    match a.quantity?, b.quantity? with
    | some x, some y => x.same y
    | _, _ => false

def sameKeys : List Value → List Value → Bool
  | [], [] => true
  | a :: as, b :: bs => sameKey a b && sameKeys as bs
  | _, _ => false

end

mutual

/-- Whether one key comes before another: numbers by size, strings by code points, and tuples by
their first different items. Nothing is said about keys of different sorts. -/
def keyBefore? : Value → Value → Option Bool
  | str a, str b => some (a < b)
  | tuple as, tuple bs => keysBefore? as bs
  | a, b =>
    match a.quantity?, b.quantity? with
    | some x, some y => some (x.below y)
    | _, _ => none

def keysBefore? : List Value → List Value → Option Bool
  | [], [] => some false
  | [], _ :: _ => some true
  | _ :: _, [] => some false
  | a :: as, b :: bs => if sameKey a b then keysBefore? as bs else keyBefore? a b

end

end Value

end HierarchyLint
