import HierarchyLint.Graph.Cycle
import Mathlib.Data.List.Basic

/-!
# Edges with other texts

The searches for cycles look at the targets of edges and hand the texts on. So in two graphs whose
edges differ in their texts alone both searches take the same steps, and what they report differs
in the texts of the chains alone (`cycles_relabel`).
-/

namespace HierarchyLint

def Edge.mapText (f : String → String) (e : Edge) : Edge := { e with text := f e.text }

def CycleReport.mapTexts (f : String → String) (r : CycleReport) : CycleReport :=
  { r with chain := r.chain.take 1 ++ (r.chain.drop 1).map f }

theorem CycleReport.length_chain_mapTexts (f : String → String) (r : CycleReport) :
    (r.mapTexts f).chain.length = r.chain.length := by
  simp only [mapTexts, List.length_append, List.length_take, List.length_map, List.length_drop]
  omega

theorem CycleReport.head?_chain_mapTexts (f : String → String) (r : CycleReport) :
    (r.mapTexts f).chain.head? = r.chain.head? := by
  obtain ⟨name, chain⟩ := r
  cases chain <;> rfl

namespace Graph

/-- The second graph has the edges of the first one with the images of their texts. -/
def Relabels (f : String → String) (g g' : Graph) : Prop :=
  ∀ n, g'.successors n = (g.successors n).map (Edge.mapText f)

variable {f : String → String} {g g' : Graph}

/-! ## The search through the whole graph -/

namespace Search

def mapTexts (f : String → String) (s : Search) : Search :=
  { s with
    texts := s.texts.map f
    pending := s.pending.map (List.map (Edge.mapText f))
    reports := s.reports.map (CycleReport.mapTexts f) }

theorem start_relabel (hg : Relabels f g g') (s : Search) (root : String) :
    (s.mapTexts f).start g' root = (s.start g root).mapTexts f := by
  simp only [start, mapTexts, hg root, List.map_nil, List.map_cons]

theorem leave_mapTexts (s : Search) : (s.mapTexts f).leave = s.leave.mapTexts f := by
  unfold leave mapTexts
  rw [List.map_tail, List.map_tail]

theorem report_mapTexts (s : Search) (e : Edge) (place : Nat) :
    (s.mapTexts f).report (e.mapText f) place = (s.report e place).mapTexts f := by
  simp [report, mapTexts, CycleReport.mapTexts, Edge.mapText]

theorem enter_relabel (hg : Relabels f g g') (s : Search) (e : Edge) :
    (s.mapTexts f).enter g' (e.mapText f) = (s.enter g e).mapTexts f := by
  simp only [enter, mapTexts, Edge.mapText, hg e.target, List.map_cons]

/-- Every step depends on the targets alone. -/
theorem step_relabel (hg : Relabels f g g') (s : Search) :
    (s.mapTexts f).step g' = (s.step g).map (mapTexts f) := by
  obtain ⟨visited, path, texts, places, pending, reports⟩ := s
  cases pending with
  | nil => rfl
  | cons edges below =>
    cases edges with
    | nil => exact congrArg some (leave_mapTexts _)
    | cons e es =>
      simp only [step, mapTexts, List.map_cons]
      -- the case of the step is decided by the target, the places and the visited types alone
      have htarget : (e.mapText f).target = e.target := rfl
      rw [htarget]
      cases Table.find? e.target places with
      | some place =>
        exact congrArg some
          (report_mapTexts ⟨visited, path, texts, places, es :: below, reports⟩ e place)
      | none =>
        refine congrArg some ?_
        by_cases hv : e.target ∈ visited
        · rw [if_pos hv, if_pos hv]
          rfl
        · rw [if_neg hv, if_neg hv]
          exact enter_relabel hg ⟨visited, path, texts, places, es :: below, reports⟩ e

theorem run_eq (g : Graph) (s : Search) :
    s.run g = match s.step g with
      | none => s
      | some t => t.run g := by
  rw [run]
  split <;> simp_all

theorem run_relabel (hg : Relabels f g g') (s : Search) :
    (s.mapTexts f).run g' = (s.run g).mapTexts f := by
  fun_induction run g s with
  | case1 s h =>
    rw [run_eq, step_relabel hg, h]
    rfl
  | case2 s t h ih =>
    rw [run_eq, step_relabel hg, h]
    exact ih

theorem visitRoot_relabel (hg : Relabels f g g') (s : Search) (root : String) :
    (s.mapTexts f).visitRoot g' root = (s.visitRoot g root).mapTexts f := by
  have hv : (s.mapTexts f).visited = s.visited := rfl
  unfold visitRoot
  rw [hv, start_relabel hg, run_relabel hg]
  split
  · rfl
  · rfl

theorem visitRoots_relabel (hg : Relabels f g g') (roots : List String) (s : Search) :
    roots.foldl (visitRoot g') (s.mapTexts f) = (roots.foldl (visitRoot g) s).mapTexts f := by
  induction roots generalizing s with
  | nil => rfl
  | cons root roots ih => rw [List.foldl_cons, List.foldl_cons, visitRoot_relabel hg, ih]

end Search

theorem firstFound_relabel (hg : Relabels f g g') (hnodes : g'.nodes = g.nodes) :
    g'.firstFound = g.firstFound.map (CycleReport.mapTexts f) := by
  unfold firstFound
  rw [hnodes]
  exact congrArg Search.reports (Search.visitRoots_relabel hg g.nodes {})

/-! ## The search for a way back -/

namespace WayBack

def mapTexts (f : String → String) (w : WayBack) : WayBack :=
  { w with texts := w.texts.map f, pending := w.pending.map (List.map (Edge.mapText f)) }

def Outcome.mapTexts (f : String → String) : Outcome → Outcome
  | found r => found (r.mapTexts f)
  | exhausted => exhausted
  | onward w => onward (w.mapTexts f)

theorem step_relabel (hg : Relabels f g g') (name : String) (w : WayBack) :
    (w.mapTexts f).step g' name = (w.step g name).mapTexts f := by
  obtain ⟨visited, texts, pending⟩ := w
  cases pending with
  | nil => rfl
  | cons edges below =>
    cases edges with
    | nil => simp only [step, mapTexts, Outcome.mapTexts, List.map_cons, List.map_nil, List.map_tail]
    | cons e es =>
      simp only [step, mapTexts, List.map_cons]
      have htarget : (e.mapText f).target = e.target := rfl
      rw [htarget]
      by_cases hname : e.target = name
      · rw [if_pos hname, if_pos hname]
        simp [Outcome.mapTexts, CycleReport.mapTexts, Edge.mapText]
      · rw [if_neg hname, if_neg hname]
        by_cases hv : e.target ∈ visited
        · rw [if_pos hv, if_pos hv]
          rfl
        · rw [if_neg hv, if_neg hv, hg e.target]
          rfl

theorem run_eq (g : Graph) (name : String) (w : WayBack) :
    w.run g name = match w.step g name with
      | .found r => some r
      | .exhausted => none
      | .onward x => x.run g name := by
  rw [run]
  split <;> simp_all

theorem run_relabel (hg : Relabels f g g') (name : String) (w : WayBack) :
    (w.mapTexts f).run g' name = (w.run g name).map (CycleReport.mapTexts f) := by
  fun_induction run g name w with
  | case1 w r h =>
    rw [run_eq, step_relabel hg, h]
    rfl
  | case2 w h =>
    rw [run_eq, step_relabel hg, h]
    rfl
  | case3 w x h ih =>
    rw [run_eq, step_relabel hg, h]
    exact ih

end WayBack

theorem cycleThrough_relabel (hg : Relabels f g g') (name : String) :
    g'.cycleThrough name = (g.cycleThrough name).map (CycleReport.mapTexts f) := by
  have hstart : WayBack.start g' name = (WayBack.start g name).mapTexts f := by
    simp only [WayBack.start, WayBack.mapTexts, hg name, List.map_nil, List.map_cons]
  rw [cycleThrough, hstart, WayBack.run_relabel hg]
  rfl

/-! ## Both searches -/

/-- The cycles of a graph whose edges have other texts have these texts, and nothing else
changes. -/
theorem cycles_relabel (hg : Relabels f g g') (hnodes : g'.nodes = g.nodes)
    (mode : CycleReporting) :
    g'.cycles mode = (g.cycles mode).map (CycleReport.mapTexts f) := by
  cases mode with
  | firstFound => exact firstFound_relabel hg hnodes
  | perMember =>
    unfold cycles
    rw [hnodes, List.map_filterMap]
    exact List.filterMap_congr fun name _ => cycleThrough_relabel hg name

end Graph

end HierarchyLint
