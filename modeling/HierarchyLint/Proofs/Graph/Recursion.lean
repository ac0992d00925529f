import HierarchyLint.Proofs.Graph.DeadEnd
import HierarchyLint.Proofs.Graph.FirstFound

/-!
# The recursive search

Depth-first search as a recursion: to visit a type is to go through its edges in turn. An edge back
to the path makes a report, and an edge to a type that is not visited is followed before the next
edge is looked at. The recursion keeps no stack; it needs the path for the texts of a report alone
(`textsFrom?`). Main statement: the search that keeps its own stack finds the same cycles in the
same order. `searchAt` is the state of that search at a place of the recursion, and the run from
there goes through the edges of a type as the recursion does (`run_searchAt`).
-/

namespace HierarchyLint.Graph

/-! ## The recursion -/

/-- What a part of the search does to the visited types, and the cycles that it finds. -/
structure Explored (visited : List String) where
  seen : List String
  reports : List CycleReport
  grows : visited ⊆ seen

/-- A visit leaves no more edges to go through. -/
theorem Explored.edgesOutside_le {m : String} {visited : List String}
    (visit : Explored (m :: visited)) (g : Graph) :
    g.edgesOutside visit.seen ≤ g.edgesOutside visited :=
  edgesOf_le_of_subset (List.subset_of_cons_subset visit.grows) g.edges.entries

/-- The texts of the edges along the path from the type `w` to the current type, if `w` lies on the
path. The trail holds the types in front of the current one, the nearest first, each with the text
of the edge that leaves it. -/
def textsFrom? (w : String) : String → List (String × String) → Option (List String)
  | current, [] => if w = current then some [] else none
  | current, (u, text) :: trail =>
    if w = current then some [] else (textsFrom? w u trail).map (· ++ [text])

/-- Goes through the edges of the type `v`, to which the trail leads. -/
def explore (g : Graph) (trail : List (String × String)) (v : String) (visited : List String)
    (es : List Edge) : Explored visited :=
  match es with
  | [] => ⟨visited, [], List.Subset.refl _⟩
  | e :: es =>
    match textsFrom? e.target v trail with
    | some texts =>
      let rest := g.explore trail v visited es
      ⟨rest.seen, ⟨e.target, e.target :: texts ++ [e.text]⟩ :: rest.reports, rest.grows⟩
    | none =>
      if e.target ∈ visited then g.explore trail v visited es
      else
        let visit := g.explore ((v, e.text) :: trail) e.target (e.target :: visited)
          (g.successors e.target)
        let rest := g.explore trail v visit.seen es
        ⟨rest.seen, visit.reports ++ rest.reports,
          List.Subset.trans (List.subset_of_cons_subset visit.grows) rest.grows⟩
termination_by es.length + g.edgesOutside visited
decreasing_by
  · simp
  · simp
  · rename_i hv
    have := g.edgesOutside_cons_le hv
    simp only [List.length_cons]
    omega
  · exact Nat.add_lt_add_of_lt_of_le (Nat.lt_succ_self _) (Explored.edgesOutside_le _ g)

def exploreRoots (g : Graph) (visited : List String) : List String → List CycleReport
  | [] => []
  | root :: roots =>
    if root ∈ visited then g.exploreRoots visited roots
    else
      let visit := g.explore [] root (root :: visited) (g.successors root)
      visit.reports ++ g.exploreRoots visit.seen roots

def depthFirst (g : Graph) : List CycleReport := g.exploreRoots [] g.nodes

/-! ## The search at a place of the recursion -/

variable {g : Graph} {trail : List (String × String)} {v w : String} {visited : List String}
  {below : List (List Edge)} {reports : List CycleReport}

def pathOf (trail : List (String × String)) (v : String) : List String := v :: trail.map Prod.fst

/-- The state of the search in the type `v`, to which the trail leads. -/
def searchAt (trail : List (String × String)) (v : String) (visited : List String)
    (pending : List (List Edge)) (reports : List CycleReport) : Search where
  visited := visited
  path := pathOf trail v
  texts := trail.map Prod.snd
  places := placesOf (pathOf trail v)
  pending := pending
  reports := reports

/-- The places on the path tell the same texts as the trail. -/
theorem textsFrom?_eq (w v : String) (trail : List (String × String)) :
    textsFrom? w v trail = (Table.find? w (placesOf (pathOf trail v))).map
      fun place => (trail.map Prod.snd).reverse.drop place := by
  induction trail generalizing v with
  | nil =>
    by_cases hw : w = v
    · simp [textsFrom?, hw, pathOf, placesOf, Table.find?]
    · simp [textsFrom?, hw, Ne.symm hw, pathOf, placesOf, Table.find?]
  | cons entry trail ih =>
    obtain ⟨u, text⟩ := entry
    by_cases hw : w = v
    · simp [textsFrom?, hw, pathOf, placesOf, Table.find?]
    · have hfind : Table.find? w (placesOf (pathOf ((u, text) :: trail) v))
          = Table.find? w (placesOf (pathOf trail u)) := if_neg (Ne.symm hw)
      rw [textsFrom?, if_neg hw, hfind, ih, Option.map_map]
      refine Option.map_congr fun place hplace => ?_
      obtain ⟨k, -, hlen⟩ := find?_placesOf hplace
      have hle : place ≤ (trail.map Prod.snd).reverse.length := by
        rw [pathOf, List.length_cons, List.length_map] at hlen
        rw [List.length_reverse, List.length_map]
        omega
      rw [List.map_cons, List.reverse_cons, List.drop_append_of_le_length hle]
      rfl

theorem textsFrom?_eq_none_iff : textsFrom? w v trail = none ↔ w ∉ pathOf trail v := by
  rw [textsFrom?_eq, Option.map_eq_none_iff, Table.find?_eq_none_iff, map_fst_placesOf]

namespace Search

variable {e : Edge} {es : List Edge}

theorem step_report {texts : List String} (h : textsFrom? e.target v trail = some texts) :
    (searchAt trail v visited ((e :: es) :: below) reports).step g
      = some (searchAt trail v visited (es :: below)
          (reports ++ [⟨e.target, e.target :: texts ++ [e.text]⟩])) := by
  rw [textsFrom?_eq, Option.map_eq_some_iff] at h
  obtain ⟨place, hplace, rfl⟩ := h
  simp only [step, searchAt, hplace]
  rfl

theorem step_skip (h : textsFrom? e.target v trail = none) (hv : e.target ∈ visited) :
    (searchAt trail v visited ((e :: es) :: below) reports).step g
      = some (searchAt trail v visited (es :: below) reports) := by
  rw [textsFrom?_eq, Option.map_eq_none_iff] at h
  simp only [step, searchAt, h]
  exact congrArg some (if_pos hv)

theorem step_enter (h : textsFrom? e.target v trail = none) (hv : e.target ∉ visited) :
    (searchAt trail v visited ((e :: es) :: below) reports).step g
      = some (searchAt ((v, e.text) :: trail) e.target (e.target :: visited)
          (g.successors e.target :: es :: below) reports) := by
  rw [textsFrom?_eq, Option.map_eq_none_iff] at h
  simp only [step, searchAt, h]
  exact congrArg some (if_neg hv)

theorem step_leave {text : String} (h : w ∉ pathOf trail v) :
    (searchAt ((v, text) :: trail) w visited ([] :: below) reports).step g
      = some (searchAt trail v visited below reports) := by
  have hplaces : (searchAt ((v, text) :: trail) w visited ([] :: below) reports).leave.places
      = placesOf (pathOf trail v) := filter_placesOf h
  exact congrArg (fun places => some { searchAt trail v visited below reports with places }) hplaces

/-- The run goes through the edges of a type as the recursion does. -/
theorem run_searchAt (g : Graph) (trail : List (String × String)) (v : String)
    (visited : List String) (es : List Edge) (below : List (List Edge))
    (reports : List CycleReport) :
    (searchAt trail v visited (es :: below) reports).run g
      = (searchAt trail v (g.explore trail v visited es).seen ([] :: below)
          (reports ++ (g.explore trail v visited es).reports)).run g := by
  fun_induction explore g trail v visited es generalizing below reports with
  | case1 => rw [List.append_nil]
  | case2 trail v visited e es texts h rest ih =>
    rw [run_of_step (step_report h), ih, List.append_assoc]
    rfl
  | case3 trail v visited e es h hv ih => rw [run_of_step (step_skip h hv), ih]
  | case4 trail v visited e es h hv visit rest ihvisit ih =>
    rw [run_of_step (step_enter h hv), ihvisit,
      run_of_step (step_leave (textsFrom?_eq_none_iff.1 h)), ih, List.append_assoc]

theorem visitRoot_eq {s : Search} {root : String} (h : root ∉ s.visited) :
    (s.visitRoot g root).visited
        = (g.explore [] root (root :: s.visited) (g.successors root)).seen ∧
      (s.visitRoot g root).reports
        = s.reports ++ (g.explore [] root (root :: s.visited) (g.successors root)).reports := by
  have hstart : s.start g root
      = searchAt [] root (root :: s.visited) [g.successors root] s.reports := rfl
  rw [visitRoot, if_neg h, hstart, run_searchAt, run_of_step rfl, run_of_stop rfl]
  exact ⟨rfl, rfl⟩

theorem reports_visitRoots (s : Search) (roots : List String) :
    (roots.foldl (visitRoot g) s).reports = s.reports ++ g.exploreRoots s.visited roots := by
  induction roots generalizing s with
  | nil => rw [List.foldl_nil, exploreRoots, List.append_nil]
  | cons root roots ih =>
    rw [List.foldl_cons, ih, exploreRoots]
    by_cases h : root ∈ s.visited
    · rw [visitRoot, if_pos h, if_pos h]
    · obtain ⟨hvisited, hreports⟩ := visitRoot_eq (g := g) h
      rw [hvisited, hreports, if_neg h, List.append_assoc]

end Search

/-- The search that keeps its own stack finds the cycles that the recursion finds, in their order
and with the same chains. -/
theorem firstFound_eq_depthFirst (g : Graph) : g.cycles .firstFound = g.depthFirst :=
  Search.reports_visitRoots {} g.nodes

end HierarchyLint.Graph
