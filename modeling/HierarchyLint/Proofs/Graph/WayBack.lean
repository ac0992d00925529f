import HierarchyLint.Proofs.Graph.Stack

/-!
# The search for a way back

`WayBack.Inv` is the invariant of the search from one type. The search does not keep its path, so
the path is a parameter of the invariant; it starts at the type itself. The edges examined so far
lead to visited types other than the type itself, and a visited type off the path has all its
edges examined. So when nothing is left, the visited types are closed under edges and none of them
has an edge back (`Inv.exhausted`).
-/

namespace HierarchyLint.Graph

open Relation (TransGen)

variable {g : Graph} {name n : String} {e : Edge} {es done : List Edge} {path : List String}
  {below : List (List Edge)} {visited : List String}

/-- The examined edges lead to visited types, and none of them leads back. -/
def Dismissed (name : String) (visited : List String) (_n : String) (done : List Edge) : Prop :=
  ∀ e ∈ done, e.target ∈ visited ∧ e.target ≠ name

theorem Dismissed.visit (h : Dismissed name visited n done) (m : String) :
    Dismissed name (m :: visited) n done :=
  fun e he => ⟨List.mem_cons_of_mem m (h e he).1, (h e he).2⟩

theorem Dismissed.snoc (h : Dismissed name visited n done) (hv : e.target ∈ visited)
    (hne : e.target ≠ name) : Dismissed name visited n (done ++ [e]) := by
  intro f hf
  rcases List.mem_append.1 hf with hf | hf
  · exact h f hf
  · obtain rfl := List.mem_singleton.1 hf
    exact ⟨hv, hne⟩

namespace WayBack

variable {w x : WayBack} {r : CycleReport}

/-! ## What a step does -/

/-- The moves of the search: it leaves a type, passes over an edge or follows one. -/
inductive Moves (g : Graph) (name : String) (w : WayBack) : WayBack → Prop where
  | leave {below : List (List Edge)} : w.pending = [] :: below →
      Moves g name w { w with pending := below, texts := w.texts.tail }
  | skip {e : Edge} {es : List Edge} {below : List (List Edge)} :
      w.pending = (e :: es) :: below → e.target ≠ name → e.target ∈ w.visited →
      Moves g name w { w with pending := es :: below }
  | enter {e : Edge} {es : List Edge} {below : List (List Edge)} :
      w.pending = (e :: es) :: below → e.target ≠ name → e.target ∉ w.visited →
      Moves g name w
        ⟨e.target :: w.visited, e.text :: w.texts, g.successors e.target :: es :: below⟩

theorem moves_of_step (h : w.step g name = .onward x) : Moves g name w x := by
  unfold WayBack.step at h
  split at h
  · cases h
  · rename_i below hp
    cases h
    exact .leave hp
  · rename_i e es below hp
    split at h
    · cases h
    · rename_i hne
      split at h
      · rename_i hv
        cases h
        exact .skip hp hne hv
      · rename_i hv
        cases h
        exact .enter hp hne hv

theorem exists_edge_of_step (h : w.step g name = .found r) :
    ∃ e es below, w.pending = (e :: es) :: below ∧ e.target = name ∧
      r = ⟨name, name :: w.texts.reverse ++ [e.text]⟩ := by
  unfold WayBack.step at h
  split at h
  · cases h
  · cases h
  · rename_i e es below hp
    split at h
    · rename_i hname
      cases h
      exact ⟨e, es, below, hp, hname, rfl⟩
    · split at h <;> cases h

theorem pending_eq_nil_of_step (h : w.step g name = .exhausted) : w.pending = [] := by
  unfold WayBack.step at h
  split at h
  · assumption
  · cases h
  · split at h
    · cases h
    · split at h <;> cases h

/-! ## The invariant -/

/-- What holds between two steps of the search along `path`, the current type first. -/
structure Inv (g : Graph) (name : String) (w : WayBack) (path : List String) : Prop where
  stack : g.Stack (Dismissed name w.visited) path w.texts w.pending
  path_nodup : path.Nodup
  root : ∀ n ∈ path.getLast?, n = name
  path_visited : ∀ n ∈ path, n ∈ w.visited
  name_visited : name ∈ w.visited
  off_path : ∀ n ∈ w.visited, n ∉ path → Dismissed name w.visited n (g.successors n)

theorem Inv.start (g : Graph) (name : String) : Inv g name (start g name) [name] where
  stack := .start fun _ he => nomatch he
  path_nodup := by simp
  root := by simp
  path_visited := fun n hn => hn
  name_visited := List.mem_cons_self ..
  off_path := fun n hn hoff => absurd hn hoff

theorem Inv.getElem?_root (I : Inv g name w (n :: path)) :
    (n :: path)[path.length]? = some name := by
  have hlast : (n :: path)[path.length]? = (n :: path).getLast? := by
    rw [List.getLast?_eq_getElem?, List.length_cons, Nat.add_sub_cancel]
  cases hm : (n :: path).getLast? with
  | none => simp at hm
  | some m => rw [hlast, hm, I.root m hm]

/-! ## One step -/

/-- An edge back to the type closes a cycle along the whole path. -/
theorem Inv.found (I : Inv g name w path) (h : w.step g name = .found r) :
    r.typeName = name ∧ ∃ es, r.Traces g es := by
  obtain ⟨visited, texts, pending⟩ := w
  obtain ⟨e, es, below, hp, rfl, rfl⟩ := exists_edge_of_step h
  obtain rfl : pending = (e :: es) :: below := hp
  obtain ⟨n, path, rfl⟩ := I.stack.exists_top
  obtain ⟨ws, -, ht⟩ := I.stack.traces I.path_nodup I.getElem?_root
  rw [List.take_of_length_le (Nat.le_of_eq I.stack.length_texts)] at ht
  exact ⟨rfl, _, ht⟩

/-- When no edge is left, no visited type has an edge back. -/
theorem Inv.exhausted (I : Inv g name w path) (h : w.step g name = .exhausted) :
    ¬ g.OnCycle name := by
  obtain ⟨visited, texts, pending⟩ := w
  obtain rfl : pending = [] := pending_eq_nil_of_step h
  obtain rfl := I.stack.path_eq_nil
  have hedge : ∀ u v, u ∈ visited → g.Leads u v → v ∈ visited ∧ v ≠ name := by
    rintro u v hu ⟨e, he, rfl⟩
    exact I.off_path u hu List.not_mem_nil e he
  have hreach : ∀ m, TransGen g.Leads name m → m ∈ visited ∧ m ≠ name := by
    intro m hm
    induction hm with
    | single hv => exact hedge _ _ I.name_visited hv
    | tail _ hv ih => exact hedge _ _ ih.1 hv
  exact fun hc => (hreach name hc).2 rfl

theorem Inv.leave (I : Inv g name w path) (hp : w.pending = [] :: below) :
    Inv g name { w with pending := below, texts := w.texts.tail } path.tail := by
  obtain ⟨visited, texts, pending⟩ := w
  obtain rfl : pending = [] :: below := hp
  obtain ⟨n, path, rfl⟩ := I.stack.exists_top
  have hnodup := List.nodup_cons.1 I.path_nodup
  have hn : n ∈ visited := I.path_visited n (List.mem_cons_self ..)
  have hlast : ∀ m ∈ path.getLast?, m = name := by
    intro m hm
    refine I.root m ?_
    rw [List.getLast?_cons, Option.mem_def.1 hm]
    rfl
  -- the type itself lies at the bottom of the path, so no other type is left as long as one stays
  have hne : ∀ m ∈ path, n ≠ name := by
    rintro m hm rfl
    have hpath : path ≠ [] := List.ne_nil_of_mem hm
    have := hlast _ (List.getLast?_eq_some_getLast hpath)
    exact hnodup.1 (this ▸ List.getLast_mem hpath)
  refine ⟨?_, hnodup.2, hlast, fun m hm => I.path_visited m (List.mem_cons_of_mem n hm),
    I.name_visited, fun m hm hoff => ?_⟩
  · refine I.stack.leave (fun _ _ _ h => h) fun m hm done e he h => ?_
    exact h.snoc (he ▸ hn) (he ▸ hne m hm)
  · by_cases hmn : m = n
    · subst hmn
      exact I.stack.examined
    · refine I.off_path m hm fun h => ?_
      rcases List.mem_cons.1 h with h | h
      · exact hmn h
      · exact hoff h

theorem Inv.skip (I : Inv g name w path) (hp : w.pending = (e :: es) :: below)
    (hne : e.target ≠ name) (hv : e.target ∈ w.visited) :
    Inv g name { w with pending := es :: below } path := by
  obtain ⟨visited, texts, pending⟩ := w
  obtain rfl : pending = (e :: es) :: below := hp
  obtain ⟨n, path, rfl⟩ := I.stack.exists_top
  refine { I with stack := I.stack.examine (fun _ _ _ h => h) fun d _ h => ?_ }
  exact h.snoc hv hne

theorem Inv.enter (I : Inv g name w path) (hp : w.pending = (e :: es) :: below)
    (hv : e.target ∉ w.visited) :
    Inv g name ⟨e.target :: w.visited, e.text :: w.texts, g.successors e.target :: es :: below⟩
      (e.target :: path) := by
  obtain ⟨visited, texts, pending⟩ := w
  obtain rfl : pending = (e :: es) :: below := hp
  obtain ⟨n, path, rfl⟩ := I.stack.exists_top
  have hpath : e.target ∉ n :: path := fun h => hv (I.path_visited _ h)
  refine ⟨?_, List.nodup_cons.2 ⟨hpath, I.path_nodup⟩, ?_, ?_, ?_, fun m hm hoff => ?_⟩
  · exact I.stack.enter (fun _ _ _ h => h.visit _) fun _ he => nomatch he
  · intro m hm
    rw [List.getLast?_cons_cons] at hm
    exact I.root m hm
  · intro m hm
    rcases List.mem_cons.1 hm with rfl | hm
    · exact List.mem_cons_self ..
    · exact List.mem_cons_of_mem _ (I.path_visited m hm)
  · exact List.mem_cons_of_mem _ I.name_visited
  · rw [List.mem_cons, not_or] at hoff
    have hm' := (List.mem_cons.1 hm).resolve_left hoff.1
    exact (I.off_path m hm' hoff.2).visit _

theorem Inv.onward (I : Inv g name w path) (h : w.step g name = .onward x) :
    ∃ path', Inv g name x path' := by
  cases moves_of_step h with
  | leave hp => exact ⟨_, I.leave hp⟩
  | skip hp hne hv => exact ⟨_, I.skip hp hne hv⟩
  | enter hp hne hv => exact ⟨_, I.enter hp hv⟩

/-! ## Whole runs -/

/-- A run that finds a cycle comes to the state that finds it, with all that the steps preserve. -/
theorem exists_found {P : WayBack → Prop}
    (hP : ∀ {w x : WayBack}, P w → w.step g name = .onward x → P x) (hw : P w)
    (h : w.run g name = some r) : ∃ x, P x ∧ x.step g name = .found r := by
  fun_induction WayBack.run g name w with
  | case1 w r' hstep =>
    cases h
    exact ⟨w, hw, hstep⟩
  | case2 => cases h
  | case3 w x hstep ih => exact ih (hP hw hstep) h

theorem Inv.run_eq_some (I : Inv g name w path) (h : w.run g name = some r) :
    r.typeName = name ∧ ∃ es, r.Traces g es := by
  obtain ⟨x, ⟨_, Ix⟩, hstep⟩ := exists_found (P := fun w => ∃ path, Inv g name w path)
    (fun ⟨_, I⟩ hstep => I.onward hstep) ⟨path, I⟩ h
  exact Ix.found hstep

theorem Inv.run_eq_none (I : Inv g name w path) (h : w.run g name = none) :
    ¬ g.OnCycle name := by
  fun_induction WayBack.run g name w generalizing path with
  | case1 => cases h
  | case2 w hstep => exact I.exhausted hstep
  | case3 w x hstep ih =>
    obtain ⟨_, Ix⟩ := I.onward hstep
    exact ih Ix h

end WayBack

theorem traces_of_cycleThrough {r : CycleReport} (h : g.cycleThrough n = some r) :
    r.typeName = n ∧ ∃ es, r.Traces g es :=
  (WayBack.Inv.start g n).run_eq_some h

theorem cycleThrough_eq_none_iff : g.cycleThrough n = none ↔ ¬ g.OnCycle n := by
  constructor
  · exact (WayBack.Inv.start g n).run_eq_none
  · intro hn
    cases h : g.cycleThrough n with
    | none => rfl
    | some r =>
      obtain ⟨rfl, es, ht⟩ := traces_of_cycleThrough h
      exact absurd ht.onCycle hn

end HierarchyLint.Graph
