import HierarchyLint.Yaml.Moment
import HierarchyLint.Yaml.Node

/-!
# Reading a document

`Node.merged?` takes the entries of merged mappings into the mapping around them, in front of its
own. `Node.toValue` then turns a node into a value: of entries with one key the first gives the
place and the last the value. `read` does all of it, from the text to the value; a text that is no
document, or that holds a sort of node without a value, is refused.
-/

namespace HierarchyLint.Yaml

namespace Node

/-! ## Merging -/

/-- The entries of a mapping whose merges are done. -/
def ownEntries? : Node → Option (List (Node × Node))
  | mapping _ entries => some entries
  | _ => none

/-- The entries that a merge brings in: those of a mapping, or those of a sequence of mappings, the
last mapping first. -/
def mergedEntries? : Node → Option (List (Node × Node))
  | mapping _ entries => some entries
  | sequence _ items => do
    let all ← items.mapM ownEntries?
    some all.reverse.flatten
  | scalar _ _ => none

def isMergeKey : Node → Bool
  | scalar .merge _ => true
  | _ => false

/-- A key that stands for its mapping is a string like any other. -/
def plainKey : Node → Node
  | scalar .value text => scalar .string text
  | node => node

/-- The entries of a mapping with those of its merges in front. -/
def withMerges? (entries : List (Node × Node)) : Option (List (Node × Node)) := do
  let merges ← (entries.filter fun e => e.1.isMergeKey).mapM fun e => mergedEntries? e.2
  let own := entries.filter fun e => !e.1.isMergeKey
  some (merges.flatten ++ own.map fun e => (e.1.plainKey, e.2))

mutual

def merged? : Node → Option Node
  | scalar tag text => some (scalar tag text)
  | sequence tag items => (mergedAll? items).map (sequence tag)
  | mapping tag entries => do
    let entries ← mergedPairs? entries
    (withMerges? entries).map (mapping tag)

def mergedAll? : List Node → Option (List Node)
  | [] => some []
  | n :: ns => do some ((← merged? n) :: (← mergedAll? ns))

def mergedPairs? : List (Node × Node) → Option (List (Node × Node))
  | [] => some []
  | (k, v) :: rest => do
    let k ← merged? k
    let v ← merged? v
    some ((k, v) :: (← mergedPairs? rest))

end

/-! ## Values -/

def scalarValue (tag : Tag) (text : String) : Except ReadFault Value :=
  match tag with
  | .null => .ok .null
  | .bool =>
    let word := text.map Char.toLower
    if word ∈ trueWords then .ok (.bool true)
    else if word ∈ falseWords then .ok (.bool false)
    else .error .malformed
  | .int =>
    match intValue? text.toList with
    | .ok i => .ok (.int i)
    | .error e => .error (.valueError e.message)
  | .float =>
    match floatValue? text.toList with
    | some d => .ok (.float d)
    | none => .error .malformed
  | .string => .ok (.str text)
  | .timestamp => momentValue text
  | _ => .error .malformed

/-- Sets the value of a key; a key that is there already keeps its place. -/
def setEntry (key value : Value) : List (Value × Value) → List (Value × Value)
  | [] => [(key, value)]
  | (k, v) :: rest =>
    if k.sameKey key then (k, value) :: rest else (k, v) :: setEntry key value rest

/-- Whether the value may be a key: collections may not. -/
def isKey : Value → Bool
  | .list _ => false
  | .map _ => false
  | .other _ _ _ (some _) => false
  | _ => true

/-- The set of the items, which stay in their order. -/
def setOf (items : List Value) : Value :=
  let text := if items.isEmpty then "set()" else Value.braced (Value.describeAll items)
  .other text text items.isEmpty (some (.list items))

mutual

/-- The value of a node whose merges are done. -/
def toValue : Node → Except ReadFault Value
  | scalar tag text => scalarValue tag text
  | sequence tag items =>
    if tag = .sequence then (toValues items).map .list else .error .malformed
  | mapping tag entries =>
    match tag with
    | .mapping => (toEntries [] entries).map .map
    | .set => (toEntries [] entries).map fun done => setOf (done.map Prod.fst)
    | _ => .error .malformed

def toValues : List Node → Except ReadFault (List Value)
  | [] => .ok []
  | n :: ns => do
    let v ← toValue n
    let vs ← toValues ns
    .ok (v :: vs)

/-- The entries of a mapping, set one after another. -/
def toEntries (done : List (Value × Value)) :
    List (Node × Node) → Except ReadFault (List (Value × Value))
  | [] => .ok done
  | (k, v) :: rest => do
    let key ← toValue k
    if !isKey key then .error .malformed
    else
      let value ← toValue v
      toEntries (setEntry key value done) rest

end

end Node

def read (text : List Char) : Except ReadFault Value :=
  match (tokens? text).bind Node.document? |>.bind Node.merged? with
  | some root => root.toValue
  | none => .error .malformed

end HierarchyLint.Yaml
