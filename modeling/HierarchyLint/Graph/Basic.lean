import HierarchyLint.Hierarchy.Supertype

/-!
# The graph of a hierarchy

A type has an edge to each declared type that it fulfills, in the order of its references. The
parameters of a reference make no edges. The target of an edge need not be a node when a graph is
built from references directly.
-/

namespace HierarchyLint

/-- An edge with the text of the reference that makes it. -/
structure Edge where
  text : String
  target : String
  deriving DecidableEq, Repr

structure Graph where
  edges : Table (List Edge)

namespace Graph

/-- The graph of references that are given as a text and perhaps a target. -/
def ofTargets (refs : Table (List (String × Option String))) : Graph :=
  ⟨refs.mapValues fun _ rs => rs.filterMap fun r => r.2.map fun target => ⟨r.1, target⟩⟩

/-- The graph of the references that lead to a declared type. -/
def ofSupertypes (refs : Table (List SupertypeRef)) : Graph :=
  ofTargets (refs.mapValues fun _ rs => rs.map fun r => (r.text, r.target?))

def ofHierarchy (h : Hierarchy) : Graph := ofSupertypes h.supertypes

def nodes (g : Graph) : List String := g.edges.keys

/-- The outgoing edges of a node; none if it is no node. -/
def successors (g : Graph) (name : String) : List Edge := (g.edges.get? name).getD []

/-! ## The edges of unvisited nodes -/

def edgesOf (visited : List String) : List (String × List Edge) → Nat
  | [] => 0
  | (name, es) :: entries =>
    (if name ∈ visited then 0 else es.length) + edgesOf visited entries

/-- The number of edges that leave nodes outside the list. -/
def edgesOutside (g : Graph) (visited : List String) : Nat := edgesOf visited g.edges.entries

theorem edgesOf_le_of_subset {visited seen : List String} (h : visited ⊆ seen)
    (entries : List (String × List Edge)) : edgesOf seen entries ≤ edgesOf visited entries := by
  induction entries with
  | nil => exact Nat.le_refl _
  | cons entry entries ih =>
    obtain ⟨n, es⟩ := entry
    by_cases hv : n ∈ visited
    · simpa only [edgesOf, hv, h hv, if_true, Nat.zero_add] using ih
    · simp only [edgesOf, hv, if_false]
      split <;> omega

theorem edgesOf_visit_le {visited : List String} {name : String} (h : name ∉ visited)
    (entries : List (String × List Edge)) :
    edgesOf (name :: visited) entries + ((Table.find? name entries).getD []).length
      ≤ edgesOf visited entries := by
  induction entries with
  | nil => simp [edgesOf, Table.find?]
  | cons entry entries ih =>
    obtain ⟨n, es⟩ := entry
    by_cases hn : n = name
    · subst hn
      have mono := edgesOf_le_of_subset (List.subset_cons_self n visited) entries
      simp only [edgesOf, Table.find?, List.mem_cons, true_or, if_true, h, if_false,
        Option.getD_some]
      omega
    · simp only [edgesOf, Table.find?, List.mem_cons, hn, false_or, if_false]
      omega

/-- A visit takes the edges of the node out of those that are left. -/
theorem edgesOutside_cons_le (g : Graph) {name : String} {visited : List String}
    (h : name ∉ visited) :
    g.edgesOutside (name :: visited) + (g.successors name).length ≤ g.edgesOutside visited :=
  edgesOf_visit_le h g.edges.entries

end Graph

end HierarchyLint
