import HierarchyLint.Proofs.Graph.Stack
import Mathlib.Data.List.Forall2
import Mathlib.Data.List.Perm.Subperm

/-!
# The search through the whole graph

`Search.Inv` is the invariant of the search from all roots. Two lists that the search does not
keep make it inductive: the types it has left for good, the latest first, and the occurrences of
the edges that closed the reported cycles, one for each report. Every edge that was examined
closed a cycle or leads to a type that was left before (`Settled`), so the order in which the
types were left admits no cycle among the edges that closed none (`Finished.acyclic_without`). The
path never goes along an edge that closed a cycle, so each reported cycle has one such edge when it
is found (`ClosesInTurn`).
-/

namespace HierarchyLint.Graph

open Relation (ReflTransGen TransGen)

variable {g : Graph} {finished finished' : List String} {closing closing' : List (String × Nat)}
  {n : String} {done : List Edge}

/-! ## Examined edges -/

/-- The examined edges of a type close cycles or lead to finished types, and no other edge of the
type closes a cycle yet. -/
structure Settled (finished : List String) (closing : List (String × Nat)) (n : String)
    (done : List Edge) : Prop where
  leads : ∀ i e, done[i]? = some e → (n, i) ∈ closing ∨ e.target ∈ finished
  examined : ∀ i, (n, i) ∈ closing → i < done.length

theorem Settled.nil (h : ∀ i, (n, i) ∉ closing) : Settled finished closing n [] :=
  ⟨fun _ _ he => (nomatch he), fun i hi => absurd hi (h i)⟩

theorem Settled.finish {m : String} (h : Settled finished closing n done) :
    Settled (m :: finished) closing n done :=
  ⟨fun i e he => (h.leads i e he).imp id (List.mem_cons_of_mem m), h.examined⟩

theorem Settled.close {o : String × Nat} (h : Settled finished closing n done) (ho : o.1 ≠ n) :
    Settled finished (closing ++ [o]) n done := by
  refine ⟨fun i e he => (h.leads i e he).imp (List.mem_append_left _) id, fun i hi => ?_⟩
  rcases List.mem_append.1 hi with hi | hi
  · exact h.examined i hi
  · exact absurd (List.mem_singleton.1 hi ▸ rfl) ho

/-- The next edge closes a cycle or leads to a finished type. -/
theorem Settled.snoc {e : Edge} (h : Settled finished closing n done)
    (hsub : ∀ o ∈ closing, o ∈ closing')
    (hnew : ∀ i, (n, i) ∈ closing' → (n, i) ∈ closing ∨ i = done.length)
    (he : (n, done.length) ∈ closing' ∨ e.target ∈ finished) :
    Settled finished closing' n (done ++ [e]) := by
  refine ⟨fun i f hf => ?_, fun i hi => ?_⟩
  · rcases Nat.lt_or_ge i done.length with hi | hi
    · rw [List.getElem?_append_left hi] at hf
      exact (h.leads i f hf).imp (hsub _) id
    · rw [List.getElem?_append_right hi, List.getElem?_singleton] at hf
      split at hf
      · cases hf
        rwa [show i = done.length by omega]
      · cases hf
  · rw [List.length_append, List.length_singleton]
    rcases hnew i hi with hi | rfl
    · have := h.examined i hi
      omega
    · omega

/-! ## Finished types -/

/-- The types were left in turn, the latest first: the edges of each that close no cycle lead to
types left before it. -/
inductive Finished (g : Graph) (closing : List (String × Nat)) : List String → Prop where
  | nil : Finished g closing []
  | cons {n : String} {rest : List String} : n ∉ rest →
      (∀ i e, (g.successors n)[i]? = some e → (n, i) ∈ closing ∨ e.target ∈ rest) →
      Finished g closing rest → Finished g closing (n :: rest)

theorem Finished.close (h : Finished g closing finished)
    (hsub : ∀ o ∈ closing, o ∈ closing') : Finished g closing' finished := by
  induction h with
  | nil => exact .nil
  | cons hn he _ ih => exact .cons hn (fun i e hi => (he i e hi).imp (hsub _) id) ih

/-- An edge that closes no cycle leads to a type that was left earlier. -/
theorem Finished.idxOf_lt (h : Finished g closing finished) {u v : String} (hu : u ∈ finished)
    (huv : (g.without closing).Leads u v) :
    v ∈ finished ∧ finished.idxOf u < finished.idxOf v := by
  obtain ⟨i, e, he, hd, rfl⟩ := leads_without_iff.1 huv
  induction h with
  | nil => cases hu
  | @cons n rest hn hsettled _ ih =>
    suffices e.target ∈ rest ∧ (n :: rest).idxOf u < rest.idxOf e.target + 1 by
      have hne : n ≠ e.target := fun h => hn (h ▸ this.1)
      rw [List.idxOf_cons_ne rest hne]
      exact ⟨List.mem_cons_of_mem n this.1, this.2⟩
    rcases List.mem_cons.1 hu with rfl | hu
    · have hv : e.target ∈ rest := (hsettled i e he).resolve_left hd
      rw [List.idxOf_cons_self]
      exact ⟨hv, Nat.succ_pos _⟩
    · have hnu : n ≠ u := fun h => hn (h ▸ hu)
      rw [List.idxOf_cons_ne rest hnu]
      exact ⟨(ih hu).1, Nat.succ_lt_succ (ih hu).2⟩

theorem Finished.acyclic_without (h : Finished g closing finished)
    (hnodes : ∀ n ∈ g.nodes, n ∈ finished) : (g.without closing).Acyclic := by
  intro n hn
  have hedge : ∀ u v, (g.without closing).Leads u v → finished.idxOf u < finished.idxOf v := by
    intro u v huv
    obtain ⟨i, e, he, -, -⟩ := leads_without_iff.1 huv
    have hu := mem_nodes_of_mem_successors (List.mem_of_getElem? he)
    exact (h.idxOf_lt (hnodes u hu) huv).2
  have hlt : TransGen (· < ·) (finished.idxOf n) (finished.idxOf n) := hn.lift _ hedge
  rw [Relation.transGen_eq_self] at hlt
  exact Nat.lt_irrefl _ hlt

/-! ## Closing edges in turn -/

/-- The edge at the occurrence closes the cycle that the report spells, and the rest of the cycle
goes along none of the edges that closed cycles before. -/
def ClosesAfter (g : Graph) (closing : List (String × Nat)) (o : String × Nat) (r : CycleReport) :
    Prop :=
  ∃ e es, (g.successors o.1)[o.2]? = some e ∧ e.target = r.typeName ∧
    r.chain.getLast? = some e.text ∧ (g.without closing).Walk r.typeName es o.1 ∧
    r.Traces g (es ++ [e])

theorem ClosesAfter.closes {o : String × Nat} {r : CycleReport} (h : g.ClosesAfter closing o r) :
    g.Closes o r := by
  obtain ⟨e, es, he, htarget, hlast, hw, ht⟩ := h
  exact ⟨e, es, he, htarget, hlast, hw.mono (g.successors_without_subset closing), ht⟩

/-- The edges at the occurrences close the cycles of the reports one after another. -/
inductive ClosesInTurn (g : Graph) : List (String × Nat) → List CycleReport → Prop where
  | nil : ClosesInTurn g [] []
  | concat {closing : List (String × Nat)} {reports : List CycleReport} {o : String × Nat}
      {r : CycleReport} : ClosesInTurn g closing reports → g.ClosesAfter closing o r →
      ClosesInTurn g (closing ++ [o]) (reports ++ [r])

theorem ClosesInTurn.closes {reports : List CycleReport} (h : g.ClosesInTurn closing reports) :
    List.Forall₂ g.Closes closing reports := by
  induction h with
  | nil => exact .nil
  | concat _ hr ih => exact List.rel_append ih (.cons hr.closes .nil)

/-! ## Places on the path -/

def placesOf : List String → List (String × Nat)
  | [] => []
  | n :: path => (n, path.length) :: placesOf path

theorem map_fst_placesOf (path : List String) : (placesOf path).map Prod.fst = path := by
  induction path with
  | nil => rfl
  | cons n path ih => rw [placesOf, List.map_cons, ih]

theorem find?_placesOf {path : List String} {q : String} {place : Nat}
    (h : Table.find? q (placesOf path) = some place) :
    ∃ k, path[k]? = some q ∧ place + k + 1 = path.length := by
  induction path with
  | nil => cases h
  | cons n path ih =>
    rw [placesOf, Table.find?] at h
    split at h
    · rename_i hq
      cases h
      exact ⟨0, by rw [hq]; rfl, rfl⟩
    · obtain ⟨k, hk, hplace⟩ := ih h
      refine ⟨k + 1, by simpa using hk, ?_⟩
      rw [List.length_cons]
      omega

theorem find?_placesOf_iff {path : List String} (h : path.Nodup) {q : String} {place : Nat} :
    Table.find? q (placesOf path) = some place ↔ path.reverse[place]? = some q := by
  have hstands : ∀ p, Table.find? q (placesOf path) = some p → path.reverse[p]? = some q := by
    intro p hp
    obtain ⟨k, hk, hlen⟩ := find?_placesOf hp
    rw [List.getElem?_reverse (by omega), show path.length - 1 - p = k by omega, hk]
  refine ⟨hstands place, fun hq => ?_⟩
  cases hp : Table.find? q (placesOf path) with
  | none =>
    rw [Table.find?_eq_none_iff, map_fst_placesOf] at hp
    exact absurd (List.mem_reverse.1 (List.mem_of_getElem? hq)) hp
  | some p =>
    obtain ⟨hlt, -⟩ := List.getElem?_eq_some_iff.1 hq
    have hsame := hq.trans (hstands p hp).symm
    rw [(List.getElem?_inj hlt (List.nodup_reverse.2 h)).1 hsame]

theorem filter_placesOf {path : List String} (h : n ∉ path) :
    (placesOf (n :: path)).filter (fun p => (n :: path).head? ≠ some p.1) = placesOf path := by
  have hall : ∀ p ∈ placesOf path, p.1 ≠ n := by
    rintro p hp rfl
    rw [← map_fst_placesOf path] at h
    exact h (List.mem_map_of_mem hp)
  rw [placesOf, List.filter_cons_of_neg (by simp), List.filter_eq_self.2]
  intro p hp
  simpa using Ne.symm (hall p hp)

/-! ## The invariant -/

/-- What holds between two steps of the search. -/
structure Search.Inv (g : Graph) (s : Search) (finished : List String)
    (closing : List (String × Nat)) : Prop where
  stack : g.Stack (Settled finished closing) s.path s.texts s.pending
  path_nodup : s.path.Nodup
  places : s.places = placesOf s.path
  visited : ∀ n, n ∈ s.visited ↔ n ∈ s.path ∨ n ∈ finished
  path_unfinished : ∀ n ∈ s.path, n ∉ finished
  finished : g.Finished closing finished
  closing_visited : ∀ o ∈ closing, o.1 ∈ s.visited
  closing_nodup : closing.Nodup
  closes : g.ClosesInTurn closing s.reports

namespace Search

variable {s t : Search} {e : Edge} {es : List Edge} {below : List (List Edge)}

/-! ## What a step does -/

/-- The moves of the search: it leaves a type, or it reports, passes over or follows an edge. -/
inductive Moves (g : Graph) (s : Search) : Search → Prop where
  | leave {below : List (List Edge)} : s.pending = [] :: below → Moves g s s.leave
  | report {e : Edge} {es : List Edge} {below : List (List Edge)} {place : Nat} :
      s.pending = (e :: es) :: below → Table.find? e.target s.places = some place →
      Moves g s ({ s with pending := es :: below }.report e place)
  | skip {e : Edge} {es : List Edge} {below : List (List Edge)} :
      s.pending = (e :: es) :: below → Table.find? e.target s.places = none →
      e.target ∈ s.visited → Moves g s { s with pending := es :: below }
  | enter {e : Edge} {es : List Edge} {below : List (List Edge)} :
      s.pending = (e :: es) :: below → e.target ∉ s.visited →
      Moves g s ({ s with pending := es :: below }.enter g e)

theorem moves_of_step (h : s.step g = some t) : Moves g s t := by
  unfold Search.step at h
  split at h
  · cases h
  · rename_i below hp
    cases h
    exact .leave hp
  · rename_i e es below hp
    simp only at h
    split at h
    · rename_i place hplace
      cases h
      exact .report hp hplace
    · rename_i hplace
      cases h
      split
      · rename_i hv
        exact .skip hp hplace hv
      · rename_i hv
        exact .enter hp hv

/-! ## The invariant is kept -/

theorem Inv.init : Inv g {} [] [] where
  stack := .empty
  path_nodup := List.nodup_nil
  places := rfl
  visited := by simp
  path_unfinished := by simp
  finished := .nil
  closing_visited := by simp
  closing_nodup := List.nodup_nil
  closes := .nil

theorem Inv.start (I : Inv g s finished closing) (hpath : s.path = []) {root : String}
    (hroot : root ∉ s.visited) : Inv g (s.start g root) finished closing where
  stack := .start (.nil fun _ hi => hroot (I.closing_visited _ hi))
  path_nodup := by simp [Search.start]
  places := rfl
  visited := by
    intro n
    have := I.visited n
    simp only [hpath, List.not_mem_nil, false_or] at this
    simp [Search.start, this]
  path_unfinished := by
    intro n hn hf
    obtain rfl := List.mem_singleton.1 hn
    exact hroot ((I.visited n).2 (.inr hf))
  finished := I.finished
  closing_visited := fun o ho => List.mem_cons_of_mem _ (I.closing_visited o ho)
  closing_nodup := I.closing_nodup
  closes := I.closes

theorem Inv.leave (I : Inv g s finished closing) (hp : s.pending = [] :: below) :
    ∃ n, Inv g s.leave (n :: finished) closing := by
  obtain ⟨visited, path, texts, places, pending, reports⟩ := s
  obtain rfl : pending = [] :: below := hp
  obtain ⟨n, path, rfl⟩ := I.stack.exists_top
  have hnodup := List.nodup_cons.1 I.path_nodup
  have hsettled := I.stack.examined
  refine ⟨n, ?_, hnodup.2, ?_, ?_, ?_, ?_, I.closing_visited, I.closing_nodup, I.closes⟩
  · refine I.stack.leave (fun m _ done h => h.finish) fun m _ done e he h => ?_
    exact h.snoc (fun o ho => ho) (fun i hi => .inl hi) (.inr (by simp [he]))
  · have hplaces : places = placesOf (n :: path) := I.places
    simp only [Search.leave, hplaces, List.tail_cons]
    exact filter_placesOf hnodup.1
  · intro m
    have hm := I.visited m
    simp only [Search.leave, List.tail_cons, List.mem_cons] at hm ⊢
    tauto
  · intro m hm hf
    have hm' : m ∈ n :: path := List.mem_cons_of_mem n hm
    rcases List.mem_cons.1 hf with rfl | hf
    · exact hnodup.1 hm
    · exact I.path_unfinished m hm' hf
  · exact .cons (I.path_unfinished n (List.mem_cons_self ..)) hsettled.leads I.finished

/-- An edge back to the path closes the cycle that is reported. -/
theorem Inv.report (I : Inv g s finished closing) (hp : s.pending = (e :: es) :: below)
    {place : Nat} (hplace : Table.find? e.target s.places = some place) :
    ∃ o, Inv g ({ s with pending := es :: below }.report e place) finished (closing ++ [o]) := by
  obtain ⟨visited, path, texts, places, pending, reports⟩ := s
  obtain rfl : pending = (e :: es) :: below := hp
  obtain ⟨n, path, rfl⟩ := I.stack.exists_top
  obtain ⟨done, hs, hsettled⟩ := I.stack.exists_done
  have hplaces : places = placesOf (n :: path) := I.places
  obtain ⟨k, hk, hlen⟩ := find?_placesOf (hplaces ▸ hplace)
  -- the edges along the path stand behind the examined ones as well, so they closed no cycle
  have hopen : ∀ m done f fs, g.successors m = done ++ f :: fs →
      Settled finished closing m done → f ∈ (g.without closing).successors m :=
    fun m done f fs hs h => mem_successors_without_iff.2 ⟨done.length, by simp [hs],
      fun hc => absurd (h.examined _ hc) (Nat.lt_irrefl _)⟩
  obtain ⟨ws, hw, htraces⟩ :=
    I.stack.traces_within hopen (g.successors_without_subset closing) I.path_nodup hk
  have htexts : texts.length = path.length := I.stack.length_texts
  have hchain : texts.reverse.drop place = (texts.take k).reverse := by
    rw [List.length_cons] at hlen
    rw [List.drop_reverse, show texts.length - place = k by omega]
  -- the edge stands behind the examined ones, so its place is new among the closing edges
  have hnew : (n, done.length) ∉ closing :=
    fun hc => absurd (hsettled.examined _ hc) (Nat.lt_irrefl _)
  refine ⟨(n, done.length), ?_, I.path_nodup, I.places, I.visited, I.path_unfinished,
    I.finished.close fun o ho => List.mem_append_left _ ho, ?_, ?_, ?_⟩
  · refine I.stack.examine (fun m hm d h => h.close ?_) fun d hd h => ?_
    · rintro rfl
      exact (List.nodup_cons.1 I.path_nodup).1 hm
    · obtain rfl : d = done := List.append_cancel_right (hd.symm.trans hs)
      refine h.snoc (fun o ho => List.mem_append_left _ ho) (fun i hi => ?_)
        (.inl (List.mem_append_right _ (List.mem_singleton.2 rfl)))
      simpa using hi
  · intro o ho
    rcases List.mem_append.1 ho with ho | ho
    · exact I.closing_visited o ho
    · obtain rfl := List.mem_singleton.1 ho
      exact (I.visited n).2 (.inl (List.mem_cons_self ..))
  · rw [List.nodup_append]
    refine ⟨I.closing_nodup, by simp, ?_⟩
    rintro o ho p hp rfl
    exact hnew (List.mem_singleton.1 hp ▸ ho)
  · refine I.closes.concat ⟨e, ws, by simp [hs], rfl, List.getLast?_concat, hw, ?_⟩
    rwa [hchain]

theorem Inv.skip (I : Inv g s finished closing) (hp : s.pending = (e :: es) :: below)
    (hplace : Table.find? e.target s.places = none) (hv : e.target ∈ s.visited) :
    Inv g { s with pending := es :: below } finished closing := by
  obtain ⟨visited, path, texts, places, pending, reports⟩ := s
  obtain rfl : pending = (e :: es) :: below := hp
  obtain ⟨n, path, rfl⟩ := I.stack.exists_top
  have hoff : e.target ∉ n :: path := by
    rw [← map_fst_placesOf (n :: path), ← Table.find?_eq_none_iff]
    exact I.places ▸ hplace
  have hf : e.target ∈ finished := ((I.visited _).1 hv).resolve_left hoff
  refine { I with stack := I.stack.examine (fun _ _ _ h => h) fun d _ h => ?_ }
  exact h.snoc (fun o ho => ho) (fun i hi => .inl hi) (.inr hf)

theorem Inv.enter (I : Inv g s finished closing) (hp : s.pending = (e :: es) :: below)
    (hv : e.target ∉ s.visited) :
    Inv g ({ s with pending := es :: below }.enter g e) finished closing := by
  obtain ⟨visited, path, texts, places, pending, reports⟩ := s
  obtain rfl : pending = (e :: es) :: below := hp
  obtain ⟨n, path, rfl⟩ := I.stack.exists_top
  have hvisited := I.visited
  have hpath : e.target ∉ n :: path := fun h => hv ((hvisited _).2 (.inl h))
  have hfin : e.target ∉ finished := fun h => hv ((hvisited _).2 (.inr h))
  have hplaces : places = placesOf (n :: path) := I.places
  refine ⟨?_, List.nodup_cons.2 ⟨hpath, I.path_nodup⟩, ?_, ?_, ?_, I.finished, ?_,
    I.closing_nodup, I.closes⟩
  · exact I.stack.enter (fun _ _ _ h => h) (.nil fun _ hi => hv (I.closing_visited _ hi))
  · simp only [Search.enter, hplaces, placesOf]
  · intro m
    have hm := hvisited m
    simp only [Search.enter, List.mem_cons] at hm ⊢
    tauto
  · exact List.forall_mem_cons.2 ⟨hfin, I.path_unfinished⟩
  · exact fun o ho => List.mem_cons_of_mem _ (I.closing_visited o ho)

theorem Inv.step (I : Inv g s finished closing) (h : s.step g = some t) :
    ∃ finished' closing', Inv g t finished' closing' := by
  cases moves_of_step h with
  | leave hp =>
    obtain ⟨n, I⟩ := I.leave hp
    exact ⟨_, _, I⟩
  | report hp hplace =>
    obtain ⟨o, I⟩ := I.report hp hplace
    exact ⟨_, _, I⟩
  | skip hp hplace hv => exact ⟨_, _, I.skip hp hplace hv⟩
  | enter hp hv => exact ⟨_, _, I.enter hp hv⟩

/-! ## Whole runs -/

theorem visited_subset_of_step (h : s.step g = some t) : s.visited ⊆ t.visited := by
  cases moves_of_step h with
  | leave | report | skip => exact List.Subset.refl _
  | enter => exact List.subset_cons_self _ _

theorem pending_eq_nil_of_step (h : s.step g = none) : s.pending = [] := by
  unfold Search.step at h
  split at h
  · assumption
  · cases h
  · simp only at h
    split at h <;> cases h

/-- A run keeps the invariant and ends on an empty path. -/
theorem Inv.run (I : Inv g s finished closing) :
    (∃ finished' closing', Inv g (s.run g) finished' closing') ∧ (s.run g).path = [] ∧
      s.visited ⊆ (s.run g).visited := by
  fun_induction Search.run g s generalizing finished closing with
  | case1 s h =>
    have hstack := I.stack
    rw [pending_eq_nil_of_step h] at hstack
    exact ⟨⟨_, _, I⟩, hstack.path_eq_nil, List.Subset.refl _⟩
  | case2 s t h ih =>
    obtain ⟨_, _, It⟩ := I.step h
    obtain ⟨hinv, hpath, hsub⟩ := ih It
    exact ⟨hinv, hpath, List.Subset.trans (visited_subset_of_step h) hsub⟩

theorem Inv.visitRoot (I : Inv g s finished closing) (hpath : s.path = []) (root : String) :
    (∃ finished' closing', Inv g (s.visitRoot g root) finished' closing') ∧
      (s.visitRoot g root).path = [] ∧ s.visited ⊆ (s.visitRoot g root).visited ∧
      root ∈ (s.visitRoot g root).visited := by
  unfold Search.visitRoot
  split
  · rename_i hroot
    exact ⟨⟨_, _, I⟩, hpath, List.Subset.refl _, hroot⟩
  · rename_i hroot
    obtain ⟨hinv, hend, hsub⟩ := (I.start hpath hroot).run
    have hstart : root ∈ (s.start g root).visited := List.mem_cons_self ..
    have hmono : s.visited ⊆ (s.start g root).visited := List.subset_cons_self _ _
    exact ⟨hinv, hend, List.Subset.trans hmono hsub, hsub hstart⟩

theorem Inv.visitRoots (I : Inv g s finished closing) (hpath : s.path = []) (roots : List String) :
    (∃ finished' closing', Inv g (roots.foldl (Search.visitRoot g) s) finished' closing') ∧
      (roots.foldl (Search.visitRoot g) s).path = [] ∧
      ∀ n, n ∈ s.visited ∨ n ∈ roots → n ∈ (roots.foldl (Search.visitRoot g) s).visited := by
  induction roots generalizing s finished closing with
  | nil => exact ⟨⟨_, _, I⟩, hpath, by simp⟩
  | cons root roots ih =>
    obtain ⟨⟨_, _, Iroot⟩, hend, hsub, hroot⟩ := I.visitRoot hpath root
    obtain ⟨hinv, hend, hall⟩ := ih Iroot hend
    refine ⟨hinv, hend, fun n hn => hall n ?_⟩
    rcases hn with hn | hn
    · exact .inl (hsub hn)
    · rcases List.mem_cons.1 hn with rfl | hn
      · exact .inl hroot
      · exact .inr hn

end Search

/-! ## What the search reports -/

/-- The reports correspond to occurrences of edges that close their cycles in turn. Without these
edges the graph has no cycle. -/
theorem exists_closing_in_turn (g : Graph) : ∃ closing : List (String × Nat),
    closing.Nodup ∧ g.ClosesInTurn closing g.firstFound ∧ (g.without closing).Acyclic := by
  obtain ⟨⟨finished, closing, I⟩, hpath, hall⟩ :=
    Search.Inv.visitRoots (Search.Inv.init (g := g)) rfl g.nodes
  have hnodes : ∀ n ∈ g.nodes, n ∈ finished := by
    intro n hn
    have hv := (I.visited n).1 (hall n (.inr hn))
    simpa [hpath] using hv
  exact ⟨closing, I.closing_nodup, I.closes, I.finished.acyclic_without hnodes⟩

theorem exists_closing (g : Graph) : ∃ closing : List (String × Nat),
    closing.Nodup ∧ List.Forall₂ g.Closes closing g.firstFound ∧ (g.without closing).Acyclic := by
  obtain ⟨closing, hnodup, hcloses, hacyclic⟩ := g.exists_closing_in_turn
  exact ⟨closing, hnodup, hcloses.closes, hacyclic⟩

theorem exists_closes {closing : List (String × Nat)} {reports : List CycleReport}
    (h : List.Forall₂ g.Closes closing reports) :
    (∀ o ∈ closing, ∃ r ∈ reports, g.Closes o r) ∧
      (∀ r ∈ reports, ∃ o ∈ closing, g.Closes o r) := by
  induction h with
  | nil => simp
  | cons hor _ ih =>
    refine ⟨List.forall_mem_cons.2 ⟨⟨_, List.mem_cons_self .., hor⟩, fun o ho => ?_⟩,
      List.forall_mem_cons.2 ⟨⟨_, List.mem_cons_self .., hor⟩, fun r hr => ?_⟩⟩
    · obtain ⟨r, hr, hor⟩ := ih.1 o ho
      exact ⟨r, List.mem_cons_of_mem _ hr, hor⟩
    · obtain ⟨o, ho, hor⟩ := ih.2 r hr
      exact ⟨o, List.mem_cons_of_mem _ ho, hor⟩

theorem traces_of_mem_firstFound {r : CycleReport} (hr : r ∈ g.firstFound) :
    ∃ es, r.Traces g es := by
  obtain ⟨closing, -, hcloses, -⟩ := g.exists_closing
  obtain ⟨o, -, e, es, -, -, -, -, ht⟩ := (exists_closes hcloses).2 r hr
  exact ⟨es ++ [e], ht⟩

theorem exists_report_connected {n : String} (hn : g.OnCycle n) :
    ∃ r ∈ g.firstFound, ∃ es, r.Traces g es ∧ ∀ m ∈ es.map Edge.target, g.Connected n m := by
  obtain ⟨closing, -, hcloses, hacyclic⟩ := g.exists_closing
  rcases reaches_without_or hn with h | ⟨m, i, e, ho, he, hnm, hen⟩
  · exact absurd h (hacyclic n)
  · obtain ⟨r, hr, f, es, hf, htarget, -, hw, ht⟩ := (exists_closes hcloses).1 _ ho
    obtain rfl : e = f := Option.some.inj (he.symm.trans hf)
    have hroot : g.Connected n r.typeName :=
      htarget ▸ ⟨hnm.tail ⟨e, List.mem_of_getElem? he, rfl⟩, hen⟩
    exact ⟨r, hr, es ++ [e], ht, fun q hq => hroot.trans (ht.connected hq)⟩

theorem firstFound_eq_nil_iff : g.firstFound = [] ↔ g.Acyclic := by
  constructor
  · intro h n hn
    obtain ⟨r, hr, -⟩ := exists_report_connected hn
    rw [h] at hr
    cases hr
  · intro h
    rw [List.eq_nil_iff_forall_not_mem]
    intro r hr
    obtain ⟨es, ht⟩ := traces_of_mem_firstFound hr
    exact h _ ht.onCycle

/-- There is one report for each of certain distinct edges, namely the edge that closes its cycle,
and without these edges the graph has no cycle. So there are reports exactly if there are cycles,
there are no more reports than edges, and every component with a cycle contains a reported one. -/
theorem firstFound_breaks_all_cycles (g : Graph) :
    (∃ closing : List (String × Nat), closing.Nodup ∧ List.Forall₂ g.Closes closing g.firstFound ∧
      (g.without closing).Acyclic) ∧
    (g.firstFound = [] ↔ g.Acyclic) ∧
    g.firstFound.length ≤ g.edgeCount ∧
    (∀ n, g.OnCycle n → ∃ r ∈ g.firstFound, ∃ es, r.Traces g es ∧
      ∀ m ∈ es.map Edge.target, g.Connected n m) := by
  refine ⟨g.exists_closing, firstFound_eq_nil_iff, ?_, fun n => exists_report_connected⟩
  obtain ⟨closing, hnodup, hcloses, -⟩ := g.exists_closing
  have hsub : closing ⊆ g.occurrences := by
    intro o ho
    obtain ⟨r, -, e, es, he, -⟩ := (exists_closes hcloses).1 o ho
    exact mem_occurrences he
  rw [← hcloses.length_eq, ← length_occurrences]
  exact (hnodup.subperm hsub).length_le

end HierarchyLint.Graph
