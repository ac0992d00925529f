import HierarchyLint.Yaml.Plain
import HierarchyLint.Yaml.Token

/-!
# Nodes

A document is a tree of scalars, sequences and mappings, each with its sort. `document?` builds
the tree from the tokens: it follows the grammar of block and flow collections, looks up aliases
among the anchors in front of them, and accepts one document only. Where the grammar lets a node
be missing, it is the empty scalar.

The functions of the grammar count down the depth of their calls; every second call takes a token,
so a bound that is computed from the number of tokens is enough.
-/

namespace HierarchyLint.Yaml

inductive Node where
  | scalar (tag : Tag) (text : String)
  | sequence (tag : Tag) (items : List Node)
  | mapping (tag : Tag) (entries : List (Node × Node))

namespace Node

instance : Inhabited Node := ⟨scalar .null ""⟩

def absent : Node := scalar .null ""

structure Remainder where
  tokens : List Token
  /-- The nodes that aliases may refer to. -/
  anchors : List (String × Node) := []
  /-- The beginnings of tags that handles stand for. -/
  handles : List (String × String)

namespace Remainder

def peek (r : Remainder) : Option Token := r.tokens.head?

def next (r : Remainder) : Remainder := { r with tokens := r.tokens.tail }

def isAt (r : Remainder) (ts : List Token) : Bool := r.peek.any (ts.contains ·)

def expect? (r : Remainder) (t : Token) : Option Remainder :=
  if r.isAt [t] then some r.next else none

end Remainder

structure Marks where
  anchor : Option String := none
  /-- The full name of the tag; an exclamation mark alone leaves it open. -/
  tag : Option String := none

def takeAnchor (r : Remainder) : Option String × Remainder :=
  match r.tokens with
  | .anchor name :: _ => (some name, r.next)
  | _ => (none, r)

/-- Takes a tag, if one comes next. Its handle has to be known. -/
def takeTag? (r : Remainder) : Option (Option String × Remainder) :=
  match r.tokens with
  | .tag none suffix :: _ => some (some suffix, r.next)
  | .tag (some handle) suffix :: _ =>
    (r.handles.lookup handle).map fun start => (some (start ++ suffix), r.next)
  | _ => some (none, r)

/-- Takes an anchor and a tag, in either order. -/
def takeMarks? (r : Remainder) : Option (Marks × Remainder) := do
  match takeAnchor r with
  | (some anchor, r) =>
    let (tag, r) ← takeTag? r
    some (⟨some anchor, tag⟩, r)
  | (none, r) =>
    let (tag, r) ← takeTag? r
    let (anchor, r) := takeAnchor r
    some (⟨anchor, tag⟩, r)

/-- The sort of a scalar: that of its tag, or that of its spelling if it is plain. -/
def Marks.scalarTag (m : Marks) (text : String) (plain : Bool) : Tag :=
  match m.tag with
  | none => if plain then .ofPlain text else .string
  | some "!" => .ofPlain text
  | some name => .ofName name

def Marks.collectionTag (m : Marks) (default : Tag) : Tag :=
  match m.tag with
  | none => default
  | some "!" => default
  | some name => .ofName name

/-- Makes a finished node known under its anchor, which may not be taken. -/
def Marks.register? (m : Marks) (node : Node) (r : Remainder) : Option (Node × Remainder) :=
  match m.anchor with
  | none => some (node, r)
  | some name =>
    if (r.anchors.lookup name).isSome then none
    else some (node, { r with anchors := (name, node) :: r.anchors })

inductive Place where
  | flow
  | block
  /-- Behind a key of a block mapping, where the items of a sequence need no indentation. -/
  | blockEntry
  deriving DecidableEq, Repr

mutual

def node? : Nat → Place → Remainder → Option (Node × Remainder)
  | 0, _, _ => none
  | depth + 1, place, r =>
    match r.peek with
    | some (.alias name) => (r.anchors.lookup name).map fun node => (node, r.next)
    | _ => do
      let (marks, r) ← takeMarks? r
      let items (found : Option (List Node × Remainder)) : Option (Node × Remainder) := do
        let (items, r) ← found
        marks.register? (sequence (marks.collectionTag .sequence) items) r
      let entries (found : Option (List (Node × Node) × Remainder)) :
          Option (Node × Remainder) := do
        let (entries, r) ← found
        marks.register? (mapping (marks.collectionTag .mapping) entries) r
      match r.peek with
      | some (.scalar text plain) =>
        marks.register? (scalar (marks.scalarTag text plain) text) r.next
      | some .flowSequenceStart => items (flowItems? depth true r.next)
      | some .flowMappingStart => entries (flowEntries? depth true r.next)
      | some .blockSequenceStart =>
        if place = .flow then none else items (blockItems? depth r.next)
      | some .blockMappingStart =>
        if place = .flow then none else entries (blockEntries? depth r.next)
      | some .blockEntry =>
        if place = .blockEntry then items (looseItems? depth r)
        else bare? marks r
      | _ => bare? marks r

/-- A node of which only the marks are written. -/
def bare? (marks : Marks) (r : Remainder) : Option (Node × Remainder) :=
  if marks.anchor.isSome ∨ marks.tag.isSome then
    marks.register? (scalar (marks.scalarTag "" true) "") r
  else none

/-- Reads a node, unless one of the given tokens shows that it is missing. -/
def nodeUnless? : Nat → List Token → Place → Remainder → Option (Node × Remainder)
  | 0, _, _, _ => none
  | depth + 1, stops, place, r =>
    if r.isAt stops then some (absent, r) else node? depth place r

def blockItems? : Nat → Remainder → Option (List Node × Remainder)
  | 0, _ => none
  | depth + 1, r =>
    if r.isAt [.blockEntry] then do
      let (item, r) ← nodeUnless? depth [.blockEntry, .blockEnd] .block r.next
      let (items, r) ← blockItems? depth r
      some (item :: items, r)
    else (r.expect? .blockEnd).map fun r => ([], r)

/-- Reads the items of a block sequence without indentation, which has no end of its own. -/
def looseItems? : Nat → Remainder → Option (List Node × Remainder)
  | 0, _ => none
  | depth + 1, r =>
    if r.isAt [.blockEntry] then do
      let (item, r) ← nodeUnless? depth [.blockEntry, .key, .value, .blockEnd] .block r.next
      let (items, r) ← looseItems? depth r
      some (item :: items, r)
    else some ([], r)

def blockEntries? : Nat → Remainder → Option (List (Node × Node) × Remainder)
  | 0, _ => none
  | depth + 1, r =>
    if r.isAt [.key] then do
      let (key, r) ← nodeUnless? depth [.key, .value, .blockEnd] .blockEntry r.next
      let (value, r) ← valueAfter? depth [.key, .value, .blockEnd] .blockEntry r
      let (entries, r) ← blockEntries? depth r
      some ((key, value) :: entries, r)
    else (r.expect? .blockEnd).map fun r => ([], r)

/-- Reads the value behind a key; without its mark it is missing. -/
def valueAfter? : Nat → List Token → Place → Remainder → Option (Node × Remainder)
  | 0, _, _, _ => none
  | depth + 1, stops, place, r =>
    if r.isAt [.value] then nodeUnless? depth stops place r.next else some (absent, r)

/-- Reads the items of a flow sequence with its end. An item with a key is a mapping of its own. -/
def flowItems? : Nat → Bool → Remainder → Option (List Node × Remainder)
  | 0, _, _ => none
  | depth + 1, first, r => do
    if r.isAt [.flowSequenceEnd] then return ([], r.next)
    let r ← if first then some r else r.expect? .flowEntry
    if r.isAt [.flowSequenceEnd] then return ([], r.next)
    let (item, r) ←
      if r.isAt [.key] then do
        let (key, r) ← nodeUnless? depth [.value, .flowEntry, .flowSequenceEnd] .flow r.next
        let (value, r) ← valueAfter? depth [.flowEntry, .flowSequenceEnd] .flow r
        some (mapping .mapping [(key, value)], r)
      else node? depth .flow r
    let (items, r) ← flowItems? depth false r
    some (item :: items, r)

/-- Reads the entries of a flow mapping with its end. A node without a key mark is a key without a
value. -/
def flowEntries? : Nat → Bool → Remainder → Option (List (Node × Node) × Remainder)
  | 0, _, _ => none
  | depth + 1, first, r => do
    if r.isAt [.flowMappingEnd] then return ([], r.next)
    let r ← if first then some r else r.expect? .flowEntry
    if r.isAt [.flowMappingEnd] then return ([], r.next)
    let (entry, r) ←
      if r.isAt [.key] then do
        let (key, r) ← nodeUnless? depth [.value, .flowEntry, .flowMappingEnd] .flow r.next
        let (value, r) ← valueAfter? depth [.flowEntry, .flowMappingEnd] .flow r
        some ((key, value), r)
      else (node? depth .flow r).map fun (key, r) => ((key, absent), r)
    let (entries, r) ← flowEntries? depth false r
    some (entry :: entries, r)

end

/-! ## Documents -/

def defaultHandles : List (String × String) := [("!", "!"), ("!!", "tag:yaml.org,2002:")]

/-- Takes the directives at the front: at most one version, which is 1, and handles that differ. -/
def directives? : Bool → List (String × String) → List Token →
    Option (List (String × String) × List Token)
  | versioned, handles, .directive d :: ts =>
    match d with
    | .version major =>
      if versioned ∨ major ≠ 1 then none else directives? true handles ts
    | .tagHandle handle start =>
      if (handles.lookup handle).isSome then none
      else directives? versioned ((handle, start) :: handles) ts
    | .other => directives? versioned handles ts
  | _, handles, ts => some (handles ++ defaultHandles, ts)

/-- The root of the only document that the tokens make; none of them make an absent one. -/
def document? (tokens : List Token) : Option Node := do
  let depth := 4 * tokens.length + 4
  let isDirective : Token → Bool
    | .directive _ => true
    | _ => false
  let (root, rest) ←
    match tokens with
    | [] => some (absent, [])
    | t :: _ =>
      if isDirective t ∨ t = .documentStart then do
        let (handles, ts) ← directives? false [] tokens
        match ts with
        | .documentStart :: ts =>
          let r : Remainder := { tokens := ts, handles }
          if ts.isEmpty ∨ ts.head?.any isDirective ∨ r.isAt [.documentStart, .documentEnd] then
            some (absent, ts)
          else (node? depth .block r).map fun (root, r) => (root, r.tokens)
        | _ => none
      else
        (node? depth .block { tokens, handles := defaultHandles }).map fun (root, r) =>
          (root, r.tokens)
  if rest.all (· = .documentEnd) then some root else none

end Node

end HierarchyLint.Yaml
