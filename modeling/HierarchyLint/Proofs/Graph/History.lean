import HierarchyLint.Proofs.Graph.FirstFound
import HierarchyLint.Proofs.Graph.Ledger
import HierarchyLint.Proofs.Graph.WayBack

/-!
# What the searches have done

`Searching` and `Seeking` are the states that the two searches come to, with a history that the
searches do not keep: the types put on the path, the edges examined and, for the search from one
type, the path itself. `Recorded` says that a state and its history fit the invariant of the search
and its `Ledger`; each step keeps it. What a reader of the loops relies on is `InStep`: the lists
have the same length up to the text that the root lacks, and each edge that comes next is new.
-/

namespace HierarchyLint.Graph

variable {g : Graph} {F : String → List Edge → Prop} {n name : String}
  {visited path texts roots : List String} {pending : List (List Edge)}
  {examined : List (String × Nat)}

/-- The lists of a search that is at a type belong together. The path, the texts and the pending
edges have the current type first. -/
structure InStep (g : Graph) (path texts : List String) (pending : List (List Edge))
    (examined : List (String × Nat)) : Prop where
  length_pending : pending.length = path.length
  length_texts : path.length = texts.length + 1
  /-- Each text is that of an edge from a type on the path to the next one, counted from the
  root. -/
  labels : ∀ i text, texts.reverse[i]? = some text → ∃ n e, path.reverse[i]? = some n ∧
    e ∈ g.successors n ∧ e.text = text ∧ path.reverse[i + 1]? = some e.target
  /-- The pending edges of each type are those that are not examined yet. -/
  unexamined : List.Forall₂ (g.Unexamined examined) path pending
  /-- No edge was examined twice, and the next one was not examined before. -/
  fresh : ((g.next? path pending).toList ++ examined).Nodup

theorem Stack.labels (S : g.Stack F (n :: path) texts pending) {i : Nat} {text : String}
    (ht : texts.reverse[i]? = some text) :
    ∃ m e, (n :: path).reverse[i]? = some m ∧ e ∈ g.successors m ∧ e.text = text ∧
      (n :: path).reverse[i + 1]? = some e.target := by
  cases S with
  | top _ _ hf =>
    have hlen := hf.length_texts
    obtain ⟨root, hroot⟩ : ∃ root, (n :: path)[path.length]? = some root :=
      ⟨_, List.getElem?_eq_getElem (by simp)⟩
    obtain ⟨ws, hw, htext, htarget⟩ :=
      hf.walk (k := g) (fun m done e es hs _ => by rw [hs]; simp) hroot
    rw [← hlen, List.take_length] at htext
    have hpath : (n :: path).reverse = root :: ws.map Edge.target := by
      have htake : (n :: path).take (path.length + 1) = n :: path := by simp
      rw [htarget, ← List.reverse_concat, ← Option.toList_some, ← hroot, ← List.take_add_one, htake]
    rw [← htext, List.getElem?_map, Option.map_eq_some_iff] at ht
    obtain ⟨e, he, rfl⟩ := ht
    obtain ⟨m, hm, hs⟩ := hw.mem_successors he
    refine ⟨m, e, hpath ▸ hm, hs, rfl, ?_⟩
    rw [hpath, List.getElem?_cons_succ, List.getElem?_map, he]
    rfl

theorem Stack.inStep (S : g.Stack F path texts pending)
    (L : g.Ledger visited path pending examined) (hp : pending ≠ []) :
    g.InStep path texts pending examined := by
  obtain ⟨es, below, rfl⟩ := List.exists_cons_of_ne_nil hp
  obtain ⟨n, path, rfl⟩ := L.exists_path
  exact
    { length_pending := L.pending.length_eq.symm
      length_texts := by rw [List.length_cons, S.length_texts]
      labels := fun i text ht => S.labels ht
      unexamined := L.pending
      fresh := L.fresh }

/-! ## The search through the whole graph -/

/-- What the search through the whole graph has done, the latest first. -/
structure History where
  /-- The types that were put on the path. -/
  expanded : List String := []
  /-- The edges that were examined. -/
  examined : List (String × Nat) := []
  steps : Nat := 0

def History.record (g : Graph) (h : History) (s t : Search) : History :=
  { expanded := t.path.take (t.path.length - s.path.length) ++ h.expanded
    examined := (g.next? s.path s.pending).toList ++ h.examined
    steps := h.steps + 1 }

theorem History.record_leave {h : History} {s : Search} {below : List (List Edge)}
    (hp : s.pending = [] :: below) : h.record g s s.leave = { h with steps := h.steps + 1 } := by
  have hnext : g.next? s.path ([] :: below) = none := by cases s.path <;> rfl
  simp [record, Search.leave, hp, hnext]

theorem History.record_of_path_eq {h : History} {s t : Search} {o : String × Nat}
    (hnext : g.next? s.path s.pending = some o) (hpath : t.path = s.path) :
    h.record g s t = ⟨h.expanded, o :: h.examined, h.steps + 1⟩ := by
  simp [record, hnext, hpath]

theorem History.record_of_path_eq_cons {h : History} {s t : Search} {o : String × Nat}
    (hnext : g.next? s.path s.pending = some o) (hpath : t.path = n :: s.path) :
    h.record g s t = ⟨n :: h.expanded, o :: h.examined, h.steps + 1⟩ := by
  simp [record, hnext, hpath]

/-- The states that the search comes to, with the roots that are left and the history. -/
inductive Searching (g : Graph) : List String → Search → History → Prop where
  | init : Searching g g.nodes {} {}
  | pass {root : String} {roots : List String} {s : Search} {h : History} :
      Searching g (root :: roots) s h → s.pending = [] → root ∈ s.visited → Searching g roots s h
  | start {root : String} {roots : List String} {s : Search} {h : History} :
      Searching g (root :: roots) s h → s.pending = [] → root ∉ s.visited →
      Searching g roots (s.start g root) { h with expanded := root :: h.expanded }
  | step {roots : List String} {s t : Search} {h : History} :
      Searching g roots s h → s.step g = some t → Searching g roots t (h.record g s t)

namespace Search

variable {s t : Search} {h : History}

/-- The search is at a type, and its lists and tables agree with each other and with what it has
done. -/
structure InStep (g : Graph) (s : Search) (h : History) : Prop where
  path_nodup : s.path.Nodup
  path_visited : s.path ⊆ s.visited
  /-- The places are exactly those of the types on the path. -/
  places : ∀ n place, Table.find? n s.places = some place ↔ s.path.reverse[place]? = some n
  lists : g.InStep s.path s.texts s.pending h.examined
  off_path : ∀ n ∈ s.visited, n ∉ s.path → ∀ i < (g.successors n).length, (n, i) ∈ h.examined
  expanded_nodup : h.expanded.Nodup
  /-- A type that is left has a place. -/
  leaves : ∀ below, s.pending = [] :: below →
    ∃ n path place, s.path = n :: path ∧ Table.find? n s.places = some place
  /-- A cycle that is reported begins within the texts. -/
  reports : ∀ n place, Table.find? n s.places = some place → place ≤ s.texts.length

/-- The state and its history fit the invariant of the search and its ledger. -/
structure Recorded (g : Graph) (s : Search) (h : History) : Prop where
  inv : ∃ finished closing, Inv g s finished closing
  ledger : g.Ledger s.visited s.path s.pending h.examined
  expanded : h.expanded = s.visited
  steps : h.steps + s.path.length = h.expanded.length + h.examined.length

theorem Recorded.init (g : Graph) : Recorded g {} {} where
  inv := ⟨_, _, .init⟩
  ledger := .init g
  expanded := rfl
  steps := rfl

theorem Recorded.path_eq_nil (R : Recorded g s h) (hp : s.pending = []) : s.path = [] :=
  Ledger.path_eq_nil (hp ▸ R.ledger)

theorem Recorded.start (R : Recorded g s h) (hp : s.pending = []) {root : String}
    (hroot : root ∉ s.visited) :
    Recorded g (s.start g root) { h with expanded := root :: h.expanded } := by
  have hpath := R.path_eq_nil hp
  obtain ⟨finished, closing, I⟩ := R.inv
  have hledger := R.ledger
  have hsteps := R.steps
  rw [hpath, hp] at hledger
  rw [hpath, List.length_nil] at hsteps
  refine ⟨⟨_, _, I.start hpath hroot⟩, hledger.push hroot, ?_, ?_⟩
  · exact congrArg (root :: ·) R.expanded
  · simp only [Search.start, List.length_cons, List.length_nil]
    omega

/-- A move along an edge takes the edge off the stack and adds it to the examined ones. -/
theorem Recorded.examine (R : Recorded g s h) {e : Edge} {es : List Edge}
    {below : List (List Edge)} (hp : s.pending = (e :: es) :: below) :
    ∃ o, g.next? s.path s.pending = some o ∧
      g.Ledger s.visited s.path (es :: below) (o :: h.examined) := by
  have hledger := R.ledger
  rw [hp] at hledger ⊢
  obtain ⟨o, hnext, -, hledger⟩ := hledger.examine
  exact ⟨o, hnext, hledger⟩

theorem Recorded.leave (R : Recorded g s h) {below : List (List Edge)}
    (hp : s.pending = [] :: below) (hinv : ∃ finished closing, Inv g s.leave finished closing) :
    Recorded g s.leave (h.record g s s.leave) := by
  have hledger := R.ledger
  have hsteps := R.steps
  rw [hp] at hledger
  obtain ⟨n, path, hpath⟩ := hledger.exists_path
  rw [History.record_leave hp]
  refine ⟨hinv, ?_, R.expanded, ?_⟩
  · simpa only [Search.leave, hp, List.tail_cons] using hledger.leave
  · simp only [Search.leave, hpath, List.tail_cons, List.length_cons] at hsteps ⊢
    omega

theorem Recorded.stay (R : Recorded g s h) {e : Edge} {es : List Edge} {below : List (List Edge)}
    (hp : s.pending = (e :: es) :: below) (hinv : ∃ finished closing, Inv g t finished closing)
    (hvisited : t.visited = s.visited) (hpath : t.path = s.path)
    (hpending : t.pending = es :: below) : Recorded g t (h.record g s t) := by
  obtain ⟨o, hnext, hledger⟩ := R.examine hp
  have hsteps := R.steps
  rw [History.record_of_path_eq hnext hpath]
  refine ⟨hinv, ?_, ?_, ?_⟩
  · rwa [hvisited, hpath, hpending]
  · rw [hvisited, R.expanded]
  · simp only [hpath, List.length_cons]
    omega

theorem Recorded.enter (R : Recorded g s h) {e : Edge} {es : List Edge} {below : List (List Edge)}
    (hp : s.pending = (e :: es) :: below) (hv : e.target ∉ s.visited)
    (ht : t = { s with pending := es :: below }.enter g e)
    (hinv : ∃ finished closing, Inv g t finished closing) : Recorded g t (h.record g s t) := by
  subst ht
  obtain ⟨o, hnext, hledger⟩ := R.examine hp
  have hsteps := R.steps
  rw [History.record_of_path_eq_cons hnext rfl]
  refine ⟨hinv, hledger.push hv, congrArg (e.target :: ·) R.expanded, ?_⟩
  simp only [Search.enter, List.length_cons]
  omega

/-- The history goes along with every step. -/
theorem Recorded.step (R : Recorded g s h) (hstep : s.step g = some t) :
    Recorded g t (h.record g s t) := by
  obtain ⟨finished, closing, I⟩ := R.inv
  have hinv := I.step hstep
  cases moves_of_step hstep with
  | leave hp => exact R.leave hp hinv
  | report hp hplace => exact R.stay hp hinv rfl rfl rfl
  | skip hp hplace hv => exact R.stay hp hinv rfl rfl rfl
  | enter hp hv => exact R.enter hp hv rfl hinv

theorem Recorded.inStep (R : Recorded g s h) (hp : s.pending ≠ []) : InStep g s h := by
  obtain ⟨finished, closing, I⟩ := R.inv
  have hlists := I.stack.inStep R.ledger hp
  have hplaces : ∀ n place,
      Table.find? n s.places = some place ↔ s.path.reverse[place]? = some n :=
    fun n place => by rw [I.places, find?_placesOf_iff I.path_nodup]
  refine ⟨I.path_nodup, R.ledger.path_visited, hplaces, hlists, R.ledger.off_path,
    R.expanded ▸ R.ledger.visited_nodup, fun below hbelow => ?_, fun n place hplace => ?_⟩
  · have hledger := R.ledger
    rw [hbelow] at hledger
    obtain ⟨n, path, hpath⟩ := hledger.exists_path
    refine ⟨n, path, path.length, hpath, (hplaces n path.length).2 ?_⟩
    simp [hpath]
  · obtain ⟨hlt, -⟩ := List.getElem?_eq_some_iff.1 ((hplaces n place).1 hplace)
    rw [List.length_reverse, hlists.length_texts] at hlt
    exact Nat.le_of_lt_succ hlt

end Search

/-! ### Reached states -/

variable {s t : Search} {h : History}

theorem Searching.recorded (S : g.Searching roots s h) : Search.Recorded g s h := by
  induction S with
  | init => exact .init g
  | pass _ _ _ ih => exact ih
  | start _ hp hroot ih => exact ih.start hp hroot
  | step _ hstep ih => exact ih.step hstep

theorem Searching.visited_or_root (S : g.Searching roots s h) :
    ∀ n ∈ g.nodes, n ∈ s.visited ∨ n ∈ roots := by
  induction S with
  | init => exact fun n hn => .inr hn
  | pass _ _ hroot ih =>
    intro n hn
    rcases ih n hn with hv | hn
    · exact .inl hv
    · rcases List.mem_cons.1 hn with rfl | hn
      · exact .inl hroot
      · exact .inr hn
  | start _ _ _ ih =>
    intro n hn
    rcases ih n hn with hv | hn
    · exact .inl (List.mem_cons_of_mem _ hv)
    · rcases List.mem_cons.1 hn with rfl | hn
      · exact .inl (List.mem_cons_self ..)
      · exact .inr hn
  | step _ hstep ih =>
    exact fun n hn => (ih n hn).imp (fun hv => Search.visited_subset_of_step hstep hv) id

theorem Searching.run (S : g.Searching roots s h) :
    ∃ h', g.Searching roots (s.run g) h' ∧ (s.run g).pending = [] := by
  fun_induction Search.run g s generalizing h with
  | case1 s hstop => exact ⟨h, S, Search.pending_eq_nil_of_step hstop⟩
  | case2 s t hstep ih => exact ih (S.step hstep)

theorem Searching.visitRoots (S : g.Searching roots s h) (hp : s.pending = []) :
    ∃ h', g.Searching [] (roots.foldl (Search.visitRoot g) s) h' ∧
      (roots.foldl (Search.visitRoot g) s).pending = [] := by
  induction roots generalizing s h with
  | nil => exact ⟨h, S, hp⟩
  | cons root roots ih =>
    rw [List.foldl_cons, Search.visitRoot]
    split
    · rename_i hroot
      exact ih (S.pass hp hroot) hp
    · rename_i hroot
      obtain ⟨h', S', hp'⟩ := (S.start hp hroot).run
      exact ih S' hp'

/-- When no root is left, the whole graph has been searched. -/
structure Search.Done (g : Graph) (h : History) : Prop where
  expanded_nodup : h.expanded.Nodup
  /-- Each edge was examined once. -/
  examined : ∀ n i, h.examined.count (n, i) = if i < (g.successors n).length then 1 else 0
  steps : h.steps = h.expanded.length + g.edgeCount

theorem Searching.done (S : g.Searching [] s h) (hp : s.pending = []) : Search.Done g h := by
  have R := S.recorded
  have hnodes : g.nodes ⊆ s.visited := by
    intro n hn
    exact (S.visited_or_root n hn).resolve_right List.not_mem_nil
  have hpath := R.path_eq_nil hp
  have hledger := R.ledger
  have hsteps := R.steps
  rw [hp, hpath] at hledger
  rw [hpath, hledger.length_examined hnodes] at hsteps
  exact ⟨R.expanded ▸ hledger.visited_nodup, hledger.count_examined hnodes, hsteps⟩

/-! ## The search for a way back -/

def WayBack.nextPath (w : WayBack) (path : List String) : List String :=
  match w.pending with
  | (e :: _) :: _ => if e.target ∈ w.visited then path else e.target :: path
  | _ => path.tail

/-- The states that the search from a type comes to, with the types whose edges are stacked and
the edges that were examined. -/
inductive Seeking (g : Graph) (name : String) :
    WayBack → List String → List (String × Nat) → Prop where
  | start : Seeking g name (.start g name) [name] []
  | step {w x : WayBack} {path : List String} {examined : List (String × Nat)} :
      Seeking g name w path examined → w.step g name = .onward x →
      Seeking g name x (w.nextPath path) ((g.next? path w.pending).toList ++ examined)

theorem Seeking.inv_ledger {w : WayBack} (S : g.Seeking name w path examined) :
    WayBack.Inv g name w path ∧ g.Ledger w.visited path w.pending examined := by
  induction S with
  | start => exact ⟨.start g name, (Ledger.init g).push List.not_mem_nil⟩
  | @step w x path examined _ hstep ih =>
    obtain ⟨I, L⟩ := ih
    cases WayBack.moves_of_step hstep with
    | @leave below hp =>
      have hpath : w.nextPath path = path.tail := by simp [WayBack.nextPath, hp]
      have hnext : g.next? path w.pending = none := by rw [hp]; cases path <;> rfl
      rw [hp] at L
      rw [hpath, hnext]
      exact ⟨I.leave hp, L.leave⟩
    | skip hp hne hv =>
      have hpath : w.nextPath path = path := by simp [WayBack.nextPath, hp, hv]
      rw [hp] at L
      obtain ⟨o, hnext, -, L⟩ := L.examine
      rw [hpath, hp, hnext]
      exact ⟨I.skip hp hne hv, L⟩
    | @enter e es below hp hne hv =>
      have hpath : w.nextPath path = e.target :: path := by simp [WayBack.nextPath, hp, hv]
      rw [hp] at L
      obtain ⟨o, hnext, -, L⟩ := L.examine
      rw [hpath, hp, hnext]
      exact ⟨I.enter hp hv, L.push hv⟩

theorem Seeking.run {w : WayBack} (S : g.Seeking name w path examined) :
    ∃ x path' examined', g.Seeking name x path' examined' ∧
      (x.step g name = .exhausted ∧ w.run g name = none ∨
        ∃ r, x.step g name = .found r ∧ w.run g name = some r) := by
  fun_induction WayBack.run g name w generalizing path examined with
  | case1 w r hfound => exact ⟨w, path, examined, S, .inr ⟨r, hfound, rfl⟩⟩
  | case2 w hexhausted => exact ⟨w, path, examined, S, .inl ⟨hexhausted, rfl⟩⟩
  | case3 w x hstep ih => exact ih (S.step hstep)

/-! ## Both searches -/

/-- Whenever the search through the whole graph is at a type, its lists and tables are in step, and
it comes to an end after one step for each type and each edge, with each type expanded at most once
and each edge examined once. The lists of the search for a way back are in step as well, from the
type itself on, and it ends too. -/
theorem searches_keep_in_step (g : Graph) :
    (∀ roots s h, g.Searching roots s h → s.pending ≠ [] → Search.InStep g s h) ∧
    (∃ h, g.Searching [] (g.nodes.foldl (Search.visitRoot g) {}) h ∧
      (g.nodes.foldl (Search.visitRoot g) {}).pending = []) ∧
    (∀ s h, g.Searching [] s h → s.pending = [] → Search.Done g h) ∧
    (∀ name w path examined, g.Seeking name w path examined → w.pending ≠ [] →
      g.InStep path w.texts w.pending examined ∧ path.getLast? = some name) ∧
    (∀ name, ∃ w path examined, g.Seeking name w path examined ∧
      (w.step g name = .exhausted ∧ g.cycleThrough name = none ∨
        ∃ r, w.step g name = .found r ∧ g.cycleThrough name = some r)) := by
  refine ⟨fun roots s h S hp => S.recorded.inStep hp, Searching.init.visitRoots rfl,
    fun s h S hp => S.done hp, fun name w path examined S hp => ?_, fun name => Seeking.start.run⟩
  obtain ⟨I, L⟩ := S.inv_ledger
  have hlists := I.stack.inStep L hp
  refine ⟨hlists, ?_⟩
  have hne : path ≠ [] := by
    rintro rfl
    cases hlists.length_texts
  have hlast := List.getLast?_eq_some_getLast hne
  rw [hlast, I.root _ hlast]

end HierarchyLint.Graph
