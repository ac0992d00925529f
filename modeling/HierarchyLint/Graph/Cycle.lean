import HierarchyLint.Graph.Basic

/-!
# Cycles

Two searches look for chains of edges that lead back to their first type. `firstFound` goes once
through the whole graph, depth first, and reports every edge that leads back to a type on the
current path; the types it has visited are shared by all roots. `cycleThrough` starts at one type
and reports the first way back to it. Both keep the edges that are still to be examined on a stack
of their own and take one step per edge or finished type; `cost` falls with every step.
-/

namespace HierarchyLint

/-- A chain that leads from a type back to it. -/
structure CycleReport where
  typeName : String
  /-- The type, followed by the texts of the edges along the chain. -/
  chain : List String
  deriving DecidableEq, Repr

def CycleReport.text (r : CycleReport) : String := " fulfills ".intercalate r.chain

inductive CycleReporting where
  /-- Every edge that closes a cycle in one search through the graph. -/
  | firstFound
  /-- For each type on a cycle, the first cycle through it. -/
  | perMember
  deriving DecidableEq, Repr

namespace CycleReporting

def all : List CycleReporting := [firstFound, perMember]

def text : CycleReporting → String
  | firstFound => "first_found"
  | perMember => "per_member"

def ofText? (text : String) : Option CycleReporting := all.find? fun m => m.text == text

end CycleReporting

namespace Graph

/-- The number of steps that a search still takes: two for an edge and one for a finished type. -/
def cost (g : Graph) (visited : List String) (pending : List (List Edge)) : Nat :=
  2 * pending.flatten.length + pending.length + 2 * g.edgesOutside visited

theorem cost_pop (g : Graph) (visited : List String) (below : List (List Edge)) :
    g.cost visited below < g.cost visited ([] :: below) := by
  simp [cost]

theorem cost_skip (g : Graph) (visited : List String) (e : Edge) (es : List Edge)
    (below : List (List Edge)) :
    g.cost visited (es :: below) < g.cost visited ((e :: es) :: below) := by
  simp only [cost, List.flatten_cons, List.length_append, List.length_cons]
  omega

theorem cost_visit (g : Graph) {visited : List String} {e : Edge} (es : List Edge)
    (below : List (List Edge)) (h : e.target ∉ visited) :
    g.cost (e.target :: visited) (g.successors e.target :: es :: below)
      < g.cost visited ((e :: es) :: below) := by
  have := g.edgesOutside_cons_le h
  simp only [cost, List.flatten_cons, List.length_append, List.length_cons]
  omega

/-! ## One search through the whole graph -/

structure Search where
  visited : List String := []
  /-- The types from the root to the current one, the current one first. -/
  path : List String := []
  /-- The texts of the edges along the path, the last one first. -/
  texts : List String := []
  /-- The place of each type on the path, counted from the root. -/
  places : List (String × Nat) := []
  /-- The edges of each type on the path that are not examined yet. -/
  pending : List (List Edge) := []
  /-- The cycles found so far. -/
  reports : List CycleReport := []

namespace Search

/-- Begins at a root, on an empty path. -/
def start (g : Graph) (s : Search) (root : String) : Search :=
  { visited := root :: s.visited
    path := [root]
    texts := []
    places := [(root, 0)]
    pending := [g.successors root]
    reports := s.reports }

/-- Leaves the current type, all of whose edges are examined. -/
def leave (s : Search) : Search :=
  { s with
    path := s.path.tail
    texts := s.texts.tail
    places := s.places.filter fun p => s.path.head? ≠ some p.1
    pending := s.pending.tail }

/-- Reports the cycle that an edge to the given place on the path closes. -/
def report (s : Search) (e : Edge) (place : Nat) : Search :=
  let chain := e.target :: s.texts.reverse.drop place ++ [e.text]
  { s with reports := s.reports ++ [⟨e.target, chain⟩] }

/-- Follows an edge to a type that is not visited yet. -/
def enter (g : Graph) (s : Search) (e : Edge) : Search :=
  { s with
    visited := e.target :: s.visited
    path := e.target :: s.path
    texts := e.text :: s.texts
    places := (e.target, s.path.length) :: s.places
    pending := g.successors e.target :: s.pending }

/-- Examines the next edge of the current type. There is no step once the path is empty. -/
def step (g : Graph) (s : Search) : Option Search :=
  match s.pending with
  | [] => none
  | [] :: _ => some s.leave
  | (e :: es) :: below =>
    let s := { s with pending := es :: below }
    match Table.find? e.target s.places with
    | some place => some (s.report e place)
    | none => some (if e.target ∈ s.visited then s else s.enter g e)

theorem cost_step {g : Graph} {s t : Search} (h : s.step g = some t) :
    g.cost t.visited t.pending < g.cost s.visited s.pending := by
  unfold step at h
  split at h
  · cases h
  · rename_i below hp
    cases h
    simpa [leave, hp] using g.cost_pop s.visited below
  · rename_i e es below hp
    rw [hp]
    simp only at h
    split at h
    · cases h
      exact g.cost_skip s.visited e es below
    · cases h
      split
      · exact g.cost_skip s.visited e es below
      · rename_i hv
        exact g.cost_visit es below hv

def run (g : Graph) (s : Search) : Search :=
  match _h : s.step g with
  | none => s
  | some t => run g t
termination_by g.cost s.visited s.pending
decreasing_by exact cost_step _h

/-- Searches from a root that no earlier root has led to. -/
def visitRoot (g : Graph) (s : Search) (root : String) : Search :=
  if root ∈ s.visited then s else (s.start g root).run g

end Search

/-- The cycles found in one search through the graph, in the order in which they close. -/
def firstFound (g : Graph) : List CycleReport :=
  (g.nodes.foldl (Search.visitRoot g) {}).reports

/-! ## The first cycle through one type -/

/-- The state of the search for a way back to one type. -/
structure WayBack where
  visited : List String
  /-- The texts of the edges along the current path, the last one first. -/
  texts : List String
  /-- The edges of each type on the path that are not examined yet. -/
  pending : List (List Edge)

namespace WayBack

inductive Outcome where
  | found (report : CycleReport)
  /-- No edge is left. -/
  | exhausted
  | onward (w : WayBack)

def start (g : Graph) (name : String) : WayBack := ⟨[name], [], [g.successors name]⟩

def step (g : Graph) (name : String) (w : WayBack) : Outcome :=
  match w.pending with
  | [] => .exhausted
  | [] :: below => .onward { w with pending := below, texts := w.texts.tail }
  | (e :: es) :: below =>
    if e.target = name then .found ⟨name, name :: w.texts.reverse ++ [e.text]⟩
    else if e.target ∈ w.visited then .onward { w with pending := es :: below }
    else .onward ⟨e.target :: w.visited, e.text :: w.texts, g.successors e.target :: es :: below⟩

theorem cost_step {g : Graph} {name : String} {w x : WayBack} (h : w.step g name = .onward x) :
    g.cost x.visited x.pending < g.cost w.visited w.pending := by
  unfold step at h
  split at h
  · cases h
  · rename_i below hp
    cases h
    simpa [hp] using g.cost_pop w.visited below
  · rename_i e es below hp
    rw [hp]
    split at h
    · cases h
    · split at h
      · cases h
        exact g.cost_skip w.visited e es below
      · rename_i hv
        cases h
        exact g.cost_visit es below hv

def run (g : Graph) (name : String) (w : WayBack) : Option CycleReport :=
  match _h : w.step g name with
  | .found r => some r
  | .exhausted => none
  | .onward x => run g name x
termination_by g.cost w.visited w.pending
decreasing_by exact cost_step _h

end WayBack

/-- The first cycle that leads from the type back to it, depth first. -/
def cycleThrough (g : Graph) (name : String) : Option CycleReport :=
  (WayBack.start g name).run g name

def cycles (g : Graph) : CycleReporting → List CycleReport
  | .firstFound => g.firstFound
  | .perMember => g.nodes.filterMap g.cycleThrough

end Graph

end HierarchyLint
