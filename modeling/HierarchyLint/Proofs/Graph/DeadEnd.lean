import HierarchyLint.Proofs.Graph.Relabel
import HierarchyLint.Proofs.Table

/-!
# Dead ends

A type without edges lies on no cycle. Both searches look into it and turn back at once, so without
the type and the edges to it they pass the same states, only sooner: a step either follows such an
edge, which leaves nothing behind but a visited type (`Search.step_hide`), or it is a step of the
other search as well. So both graphs have the same cycle reports (`cycles_hide`).
-/

namespace HierarchyLint.Graph

/-- The edges that do not lead to the type. -/
def hideEdges (k : String) (es : List Edge) : List Edge := es.filter fun e => e.target ≠ k

/-- In `g`, the type has no edges; `g'` is `g` without the type and without the edges to it. -/
structure HidesDeadEnd (k : String) (g g' : Graph) : Prop where
  nodes : g'.nodes = g.nodes.filter fun n => n ≠ k
  successors : ∀ n, g'.successors n = hideEdges k (g.successors n)
  dead : g.successors k = []

variable {k : String} {g g' : Graph} {e : Edge}

theorem hideEdges_cons (h : e.target ≠ k) (es : List Edge) :
    hideEdges k (e :: es) = e :: hideEdges k es := by
  simp [hideEdges, h]

theorem hideEdges_cons_dead (h : e.target = k) (es : List Edge) :
    hideEdges k (e :: es) = hideEdges k es := by
  simp [hideEdges, h]

theorem filter_cons_dead (visited : List String) :
    (k :: visited).filter (fun n => n ≠ k) = visited.filter fun n => n ≠ k := by
  simp

theorem filter_cons_ne {n : String} (h : n ≠ k) (visited : List String) :
    (n :: visited).filter (fun n => n ≠ k) = n :: visited.filter fun n => n ≠ k := by
  simp [h]

theorem mem_filter_ne_iff {n : String} (h : n ≠ k) (visited : List String) :
    n ∈ visited.filter (fun n => n ≠ k) ↔ n ∈ visited := by
  simp [h]

/-! ## The search through the whole graph -/

namespace Search

variable {s t : Search} {es : List Edge} {below : List (List Edge)}

def hide (k : String) (s : Search) : Search :=
  { s with
    visited := s.visited.filter fun n => n ≠ k
    pending := s.pending.map (hideEdges k) }

def OffPath (k : String) (s : Search) : Prop := k ∉ s.places.map Prod.fst

theorem OffPath.leave (h : OffPath k s) : OffPath k s.leave :=
  fun hk => h ((List.filter_sublist.map Prod.fst).subset hk)

theorem OffPath.enter (h : OffPath k s) (he : e.target ≠ k) : OffPath k (s.enter g e) :=
  fun hk => (List.mem_cons.1 hk).elim (fun hk => he hk.symm) h

theorem leave_hide (s : Search) : (s.hide k).leave = s.leave.hide k := by
  unfold leave hide
  rw [List.map_tail]

theorem enter_hide (hg : HidesDeadEnd k g g') (s : Search) (he : e.target ≠ k) :
    (s.hide k).enter g' e = (s.enter g e).hide k := by
  unfold enter hide
  rw [filter_cons_ne he, hg.successors, List.map_cons]

theorem run_of_step (h : s.step g = some t) : s.run g = t.run g := by
  rw [run_eq, h]

theorem run_of_stop (h : s.step g = none) : s.run g = s := by
  rw [run_eq, h]

/-- The run goes through the second state, which differs by the type without edges alone. -/
structure Passes (k : String) (g : Graph) (s t : Search) : Prop where
  run : s.run g = t.run g
  hide : t.hide k = s.hide k
  offPath : OffPath k t
  cost : g.cost t.visited t.pending < g.cost s.visited s.pending

/-- An edge to the type is passed in one step, or in two steps that only visit the type. -/
theorem exists_passes (hg : HidesDeadEnd k g g') (hoff : OffPath k s)
    (hp : s.pending = (e :: es) :: below) (he : e.target = k) : ∃ t, Passes k g s t := by
  subst he
  have hplace : Table.find? e.target s.places = none := Table.find?_eq_none_iff.2 hoff
  have hpending : (es :: below).map (hideEdges e.target)
      = s.pending.map (hideEdges e.target) := by
    rw [hp, List.map_cons, List.map_cons, hideEdges_cons_dead rfl]
  by_cases hv : e.target ∈ s.visited
  · have hstep : s.step g = some { s with pending := es :: below } := by
      simp only [step, hp, hplace, if_pos hv]
    refine ⟨_, run_of_step hstep, ?_, hoff, cost_step hstep⟩
    simp only [hide, hpending]
  · have henter : s.step g = some (enter g { s with pending := es :: below } e) := by
      simp only [step, hp, hplace, if_neg hv]
    have hplaces : ((e.target, s.path.length) :: s.places).filter
        (fun p => some e.target ≠ some p.1) = s.places := by
      rw [List.filter_cons_of_neg (by simp)]
      refine List.filter_eq_self.2 fun p hp => ?_
      have hne : e.target ≠ p.1 := fun h => hoff (h ▸ List.mem_map_of_mem hp)
      simpa using hne
    have hleave : (enter g { s with pending := es :: below } e).step g
        = some { s with visited := e.target :: s.visited, pending := es :: below } := by
      simp only [enter, step, hg.dead, leave, List.head?_cons, hplaces, List.tail_cons]
    refine ⟨_, (run_of_step henter).trans (run_of_step hleave), ?_, hoff,
      Nat.lt_trans (cost_step hleave) (cost_step henter)⟩
    simp only [hide, hpending, filter_cons_dead]

/-- The search with the type passes an edge to it, or both searches take the same step. -/
theorem step_hide (hg : HidesDeadEnd k g g') (hoff : OffPath k s) :
    (∃ t, Passes k g s t) ∨
    (s.step g = none ∧ (s.hide k).step g' = none) ∨
    ∃ t, s.step g = some t ∧ (s.hide k).step g' = some (t.hide k) ∧ OffPath k t := by
  obtain ⟨visited, path, texts, places, pending, reports⟩ := s
  cases pending with
  | nil => exact .inr (.inl ⟨rfl, rfl⟩)
  | cons edges below =>
    cases edges with
    | nil => exact .inr (.inr ⟨_, rfl, congrArg some (leave_hide _), hoff.leave⟩)
    | cons e es =>
      by_cases he : e.target = k
      · exact .inl (exists_passes hg hoff rfl he)
      · refine .inr (.inr ?_)
        simp only [step, hide, List.map_cons, hideEdges_cons he, mem_filter_ne_iff he]
        cases Table.find? e.target places with
        | some place => exact ⟨_, rfl, rfl, hoff⟩
        | none =>
          by_cases hv : e.target ∈ visited
          · simp only [if_pos hv]
            exact ⟨_, rfl, rfl, hoff⟩
          · simp only [if_neg hv]
            have hoff' : OffPath k ⟨visited, path, texts, places, es :: below, reports⟩ := hoff
            exact ⟨_, rfl, congrArg some (enter_hide hg ⟨visited, path, texts, places, es :: below,
              reports⟩ he), hoff'.enter he⟩

/-- Whole runs: the induction is on the cost, for two steps may pass at once. -/
theorem run_hide (hg : HidesDeadEnd k g g') (hoff : OffPath k s) :
    (s.hide k).run g' = (s.run g).hide k := by
  induction hn : g.cost s.visited s.pending using Nat.strongRecOn generalizing s with
  | ind n ih =>
    subst hn
    rcases step_hide hg hoff with ⟨t, ht⟩ | ⟨hs, hs'⟩ | ⟨t, hs, hs', ht⟩
    · rw [ht.run, ← ht.hide]
      exact ih _ ht.cost ht.offPath rfl
    · rw [run_of_stop hs, run_of_stop hs']
    · rw [run_of_step hs, run_of_step hs']
      exact ih _ (cost_step hs) ht rfl

/-! ## All roots -/

/-- Between two roots, only the visited types and the reports matter. -/
structure Agrees (k : String) (s t : Search) : Prop where
  visited : t.visited = s.visited.filter fun n => n ≠ k
  reports : t.reports = s.reports

theorem agrees_hide (s : Search) : Agrees k s (s.hide k) := ⟨rfl, rfl⟩

theorem Agrees.visitRoot (hg : HidesDeadEnd k g g') (h : Agrees k s t) {root : String}
    (hroot : root ≠ k) : Agrees k (s.visitRoot g root) (t.visitRoot g' root) := by
  have hmem : root ∈ t.visited ↔ root ∈ s.visited := by
    rw [h.visited, mem_filter_ne_iff hroot]
  unfold Search.visitRoot
  by_cases hv : root ∈ s.visited
  · rw [if_pos hv, if_pos (hmem.2 hv)]
    exact h
  · have hstart : t.start g' root = (s.start g root).hide k := by
      unfold start hide
      rw [h.visited, h.reports, filter_cons_ne hroot, hg.successors]
      rfl
    have hoff : OffPath k (s.start g root) :=
      fun hk => hroot (List.mem_singleton.1 hk).symm
    rw [if_neg hv, if_neg (mt hmem.1 hv), hstart, run_hide hg hoff]
    exact agrees_hide _

/-- The type as a root is left at once. -/
theorem Agrees.visitRoot_dead (hg : HidesDeadEnd k g g') (h : Agrees k s t) :
    Agrees k (s.visitRoot g k) t := by
  unfold Search.visitRoot
  split
  · exact h
  · have hleave : (s.start g k).step g = some (s.start g k).leave := by
      unfold start
      rw [hg.dead]
      rfl
    have hdone : (s.start g k).leave.step g = none := rfl
    rw [run_of_step hleave, run_of_stop hdone]
    exact ⟨h.visited.trans (filter_cons_dead s.visited).symm, h.reports⟩

theorem Agrees.visitRoots (hg : HidesDeadEnd k g g') (roots : List String) (h : Agrees k s t) :
    Agrees k (roots.foldl (Search.visitRoot g) s)
      ((roots.filter fun n => n ≠ k).foldl (Search.visitRoot g') t) := by
  induction roots generalizing s t with
  | nil => exact h
  | cons root roots ih =>
    by_cases hroot : root = k
    · subst hroot
      rw [filter_cons_dead]
      exact ih (h.visitRoot_dead hg)
    · rw [filter_cons_ne hroot]
      exact ih (h.visitRoot hg hroot)

end Search

theorem firstFound_hide (hg : HidesDeadEnd k g g') : g'.firstFound = g.firstFound := by
  unfold firstFound
  rw [hg.nodes]
  have hinit : Search.Agrees k {} {} := ⟨rfl, rfl⟩
  exact (hinit.visitRoots hg g.nodes).reports

/-! ## The search for a way back -/

namespace WayBack

variable {w x : WayBack} {name : String} {es : List Edge} {below : List (List Edge)}

def hide (k : String) (w : WayBack) : WayBack :=
  { w with
    visited := w.visited.filter fun n => n ≠ k
    pending := w.pending.map (hideEdges k) }

theorem run_of_onward (h : w.step g name = .onward x) : w.run g name = x.run g name := by
  rw [run_eq, h]

/-- The run goes through the second state, which differs by the type without edges alone. -/
structure Passes (k : String) (g : Graph) (name : String) (w x : WayBack) : Prop where
  run : w.run g name = x.run g name
  hide : x.hide k = w.hide k
  cost : g.cost x.visited x.pending < g.cost w.visited w.pending

/-- An edge to the type is passed in one step, or in two steps that only visit the type. -/
theorem exists_passes (hg : HidesDeadEnd k g g') (hname : name ≠ k)
    (hp : w.pending = (e :: es) :: below) (he : e.target = k) : ∃ x, Passes k g name w x := by
  subst he
  have hpending : (es :: below).map (hideEdges e.target)
      = w.pending.map (hideEdges e.target) := by
    rw [hp, List.map_cons, List.map_cons, hideEdges_cons_dead rfl]
  by_cases hv : e.target ∈ w.visited
  · have hstep : w.step g name = .onward { w with pending := es :: below } := by
      simp only [step, hp, if_neg hname.symm, if_pos hv]
    refine ⟨_, run_of_onward hstep, ?_, cost_step hstep⟩
    simp only [hide, hpending]
  · have henter : w.step g name
        = .onward ⟨e.target :: w.visited, e.text :: w.texts, [] :: es :: below⟩ := by
      simp only [step, hp, if_neg hname.symm, if_neg hv, hg.dead]
    have hleave :
        step g name ⟨e.target :: w.visited, e.text :: w.texts, [] :: es :: below⟩
          = .onward ⟨e.target :: w.visited, w.texts, es :: below⟩ := rfl
    refine ⟨_, (run_of_onward henter).trans (run_of_onward hleave), ?_,
      Nat.lt_trans (cost_step hleave) (cost_step henter)⟩
    simp only [hide, hpending, filter_cons_dead]

def Outcome.hide (k : String) : Outcome → Outcome
  | found r => found r
  | exhausted => exhausted
  | onward w => onward (w.hide k)

/-- The search with the type passes an edge to it, or both searches take the same step. -/
theorem step_hide (hg : HidesDeadEnd k g g') (hname : name ≠ k) (w : WayBack) :
    (∃ x, Passes k g name w x) ∨ (w.hide k).step g' name = (w.step g name).hide k := by
  obtain ⟨visited, texts, pending⟩ := w
  cases pending with
  | nil => exact .inr rfl
  | cons edges below =>
    cases edges with
    | nil => exact .inr rfl
    | cons e es =>
      by_cases he : e.target = k
      · exact .inl (exists_passes hg hname rfl he)
      · refine .inr ?_
        simp only [step, hide, List.map_cons, hideEdges_cons he, mem_filter_ne_iff he]
        split
        · rfl
        · split
          · rfl
          · rw [hg.successors]
            simp only [Outcome.hide, hide, filter_cons_ne he, List.map_cons]

theorem run_hide (hg : HidesDeadEnd k g g') (hname : name ≠ k) (w : WayBack) :
    (w.hide k).run g' name = w.run g name := by
  induction hn : g.cost w.visited w.pending using Nat.strongRecOn generalizing w with
  | ind n ih =>
    subst hn
    rcases step_hide hg hname w with ⟨x, hx⟩ | hstep
    · rw [hx.run, ← hx.hide]
      exact ih _ hx.cost x rfl
    · rw [run_eq, hstep, run_eq g name w]
      cases hs : w.step g name with
      | found r => rfl
      | exhausted => rfl
      | onward x => exact ih _ (cost_step hs) x rfl

end WayBack

theorem cycleThrough_hide (hg : HidesDeadEnd k g g') {name : String} (hname : name ≠ k) :
    g'.cycleThrough name = g.cycleThrough name := by
  have hstart : WayBack.start g' name = (WayBack.start g name).hide k := by
    unfold WayBack.start WayBack.hide
    rw [hg.successors, filter_cons_ne hname]
    rfl
  rw [cycleThrough, hstart, WayBack.run_hide hg hname]
  rfl

theorem cycleThrough_dead (hg : HidesDeadEnd k g g') : g.cycleThrough k = none := by
  have hleave : (WayBack.start g k).step g k = .onward ⟨[k], [], []⟩ := by
    unfold WayBack.start
    rw [hg.dead]
    rfl
  have hdone : (⟨[k], [], []⟩ : WayBack).step g k = .exhausted := rfl
  rw [cycleThrough, WayBack.run_of_onward hleave, WayBack.run_eq, hdone]

/-! ## Both searches -/

/-- A type without edges and the edges to it do not matter for the cycles of a graph. -/
theorem cycles_hide (hg : HidesDeadEnd k g g') (mode : CycleReporting) :
    g'.cycles mode = g.cycles mode := by
  cases mode with
  | firstFound => exact firstFound_hide hg
  | perMember =>
    unfold cycles
    rw [hg.nodes, List.filterMap_filter]
    refine List.filterMap_congr fun name _ => ?_
    by_cases hname : name = k
    · subst hname
      simp [cycleThrough_dead hg]
    · simp [hname, cycleThrough_hide hg hname]

end HierarchyLint.Graph
