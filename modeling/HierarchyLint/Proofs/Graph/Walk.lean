import HierarchyLint.Graph.Cycle
import HierarchyLint.Proofs.Table
import Mathlib.Data.List.Nodup
import Mathlib.Logic.Relation

/-!
# Walks and cycles

The graph as a relation: `Leads u v` holds if an edge leads from `u` to `v`, and a cycle is a way
back along one or more edges. `Walk u es v` names the edges of the way. An edge occurrence is a
type with a place in its list of edges, so that parallel edges are told apart; `without` deletes
occurrences and keeps everything else.
-/

namespace HierarchyLint

open Relation (ReflTransGen TransGen)

namespace Graph

variable {g : Graph}

def Leads (g : Graph) (u v : String) : Prop := ∃ e ∈ g.successors u, e.target = v

/-- The type can be reached from itself along one or more edges. -/
def OnCycle (g : Graph) (n : String) : Prop := TransGen g.Leads n n

def Acyclic (g : Graph) : Prop := ∀ n, ¬ g.OnCycle n

/-- Each of the two types can be reached from the other, so they lie in one component. -/
def Connected (g : Graph) (u v : String) : Prop :=
  ReflTransGen g.Leads u v ∧ ReflTransGen g.Leads v u

theorem Connected.symm {u v : String} (h : g.Connected u v) : g.Connected v u := ⟨h.2, h.1⟩

theorem Connected.trans {u v w : String} (h : g.Connected u v) (k : g.Connected v w) :
    g.Connected u w :=
  ⟨h.1.trans k.1, k.2.trans h.2⟩

theorem OnCycle.of_connected {u v : String} (hu : g.OnCycle u) (h : g.Connected u v) :
    g.OnCycle v :=
  TransGen.trans_right h.2 (hu.trans_left h.1)

/-- The edges lead one after another from the first type to the second. -/
inductive Walk (g : Graph) : String → List Edge → String → Prop where
  | nil (u : String) : Walk g u [] u
  | cons {u v : String} {e : Edge} {es : List Edge} :
      e ∈ g.successors u → Walk g e.target es v → Walk g u (e :: es) v

theorem Walk.append {u v w : String} {es fs : List Edge} (h : g.Walk u es v)
    (k : g.Walk v fs w) : g.Walk u (es ++ fs) w := by
  induction h with
  | nil => exact k
  | cons he _ ih => exact .cons he (ih k)

theorem Walk.snoc {u v : String} {es : List Edge} {e : Edge} (h : g.Walk u es v)
    (he : e ∈ g.successors v) : g.Walk u (es ++ [e]) e.target :=
  h.append (.cons he (.nil _))

theorem Walk.mono {k : Graph} {u v : String} {es : List Edge} (h : k.Walk u es v)
    (hsub : ∀ n, k.successors n ⊆ g.successors n) : g.Walk u es v := by
  induction h with
  | nil => exact .nil _
  | cons he _ ih => exact .cons (hsub _ he) ih

theorem Walk.reaches {u v : String} {es : List Edge} (h : g.Walk u es v) :
    ReflTransGen g.Leads u v := by
  induction h with
  | nil => exact .refl
  | cons he _ ih => exact .head ⟨_, he, rfl⟩ ih

/-- The types that a walk passes lie between its ends. -/
theorem Walk.reaches_target {u v m : String} {es : List Edge} (h : g.Walk u es v)
    (hm : m ∈ es.map Edge.target) : ReflTransGen g.Leads u m ∧ ReflTransGen g.Leads m v := by
  induction h with
  | nil => cases hm
  | cons he hw ih =>
    rcases List.mem_cons.1 hm with rfl | hm
    · exact ⟨.single ⟨_, he, rfl⟩, hw.reaches⟩
    · exact ⟨.head ⟨_, he, rfl⟩ (ih hm).1, (ih hm).2⟩

theorem Walk.getLast? {u v : String} {es : List Edge} (h : g.Walk u es v) :
    (u :: es.map Edge.target).getLast? = some v := by
  induction h with
  | nil => rfl
  | cons _ _ ih => rw [List.map_cons, List.getLast?_cons_cons, ih]

theorem Walk.mem_successors {u v : String} {es : List Edge} {i : Nat} {e : Edge}
    (h : g.Walk u es v) (he : es[i]? = some e) :
    ∃ n, (u :: es.map Edge.target)[i]? = some n ∧ e ∈ g.successors n := by
  induction h generalizing i with
  | nil => cases he
  | cons hs _ ih =>
    cases i with
    | zero => cases he; exact ⟨_, rfl, hs⟩
    | succ i => exact ih he

theorem Walk.onCycle {n : String} {es : List Edge} (h : g.Walk n es n) (hne : es ≠ []) :
    g.OnCycle n := by
  cases h with
  | nil => exact absurd rfl hne
  | cons he hw => exact .head' ⟨_, he, rfl⟩ hw.reaches

/-! ## Nodes -/

theorem mem_nodes_iff {n : String} : n ∈ g.nodes ↔ ∃ es, (n, es) ∈ g.edges.entries := by
  rw [nodes, Table.mem_keys_iff]
  simp only [Table.get?_eq_some_iff]

theorem successors_eq_of_mem {n : String} {es : List Edge} (h : (n, es) ∈ g.edges.entries) :
    g.successors n = es := by
  rw [successors, Table.get?_eq_some_iff.2 h, Option.getD_some]

theorem mem_nodes_of_mem_successors {n : String} {e : Edge} (h : e ∈ g.successors n) :
    n ∈ g.nodes := by
  by_cases hn : n ∈ g.nodes
  · exact hn
  · rw [successors, Table.get?_eq_none_iff.2 hn, Option.getD_none] at h
    cases h

/-! ## Edge occurrences -/

/-- Every edge of the graph, as its type and its place in the list of the type. -/
def occurrences (g : Graph) : List (String × Nat) :=
  g.edges.entries.flatMap fun entry => (List.range entry.2.length).map fun i => (entry.1, i)

def edgeCount (g : Graph) : Nat := g.edges.values.flatten.length

/-- The graph without the edges at the given occurrences. -/
def without (g : Graph) (deleted : List (String × Nat)) : Graph :=
  ⟨g.edges.mapValues fun n es =>
    (es.zipIdx.filter fun p => (n, p.2) ∉ deleted).map Prod.fst⟩

theorem length_occurrences : g.occurrences.length = g.edgeCount := by
  simp [occurrences, edgeCount, Table.values, List.length_flatMap, List.length_flatten,
    Function.comp_def]

theorem mem_occurrences {n : String} {i : Nat} {e : Edge} (h : (g.successors n)[i]? = some e) :
    (n, i) ∈ g.occurrences := by
  have hn := mem_nodes_of_mem_successors (List.mem_of_getElem? h)
  obtain ⟨es, hes⟩ := mem_nodes_iff.1 hn
  rw [successors_eq_of_mem hes] at h
  obtain ⟨hi, -⟩ := List.getElem?_eq_some_iff.1 h
  exact List.mem_flatMap.2 ⟨(n, es), hes, List.mem_map.2 ⟨i, List.mem_range.2 hi, rfl⟩⟩

theorem mem_occurrences_iff {n : String} {i : Nat} :
    (n, i) ∈ g.occurrences ↔ i < (g.successors n).length := by
  constructor
  · intro h
    obtain ⟨entry, hentry, hi⟩ := List.mem_flatMap.1 h
    obtain ⟨j, hj, heq⟩ := List.mem_map.1 hi
    obtain ⟨rfl, rfl⟩ := Prod.mk.inj heq
    rw [successors_eq_of_mem hentry]
    exact List.mem_range.1 hj
  · intro hi
    exact mem_occurrences (List.getElem?_eq_getElem hi)

theorem nodup_occurrences (g : Graph) : g.occurrences.Nodup := by
  rw [occurrences, List.nodup_flatMap]
  refine ⟨fun entry _ => ?_, ?_⟩
  · exact List.nodup_range.map fun i j h => (Prod.mk.inj h).2
  · refine (List.pairwise_map.1 g.edges.nodup).imp fun hne o ho ho' => ?_
    obtain ⟨i, -, rfl⟩ := List.mem_map.1 ho
    obtain ⟨j, -, heq⟩ := List.mem_map.1 ho'
    exact hne (Prod.mk.inj heq).1.symm

theorem successors_without (g : Graph) (deleted : List (String × Nat)) (n : String) :
    (g.without deleted).successors n =
      ((g.successors n).zipIdx.filter fun p => (n, p.2) ∉ deleted).map Prod.fst := by
  unfold without successors
  rw [Table.get?_mapValues]
  cases g.edges.get? n <;> rfl

theorem mem_successors_without_iff {deleted : List (String × Nat)} {n : String} {e : Edge} :
    e ∈ (g.without deleted).successors n ↔
      ∃ i : Nat, (g.successors n)[i]? = some e ∧ (n, i) ∉ deleted := by
  rw [successors_without]
  constructor
  · intro he
    obtain ⟨⟨_, i⟩, hp, rfl⟩ := List.mem_map.1 he
    obtain ⟨hp, hd⟩ := List.mem_filter.1 hp
    exact ⟨i, List.mem_zipIdx_iff_getElem?.1 hp, by simpa using hd⟩
  · rintro ⟨i, he, hd⟩
    refine List.mem_map.2 ⟨(e, i), List.mem_filter.2 ⟨?_, by simpa using hd⟩, rfl⟩
    exact List.mem_zipIdx_iff_getElem?.2 he

theorem successors_without_subset (g : Graph) (deleted : List (String × Nat)) (n : String) :
    (g.without deleted).successors n ⊆ g.successors n := by
  intro e he
  obtain ⟨i, hi, -⟩ := mem_successors_without_iff.1 he
  exact List.mem_of_getElem? hi

theorem leads_without_iff {deleted : List (String × Nat)} {u v : String} :
    (g.without deleted).Leads u v ↔
      ∃ i e, (g.successors u)[i]? = some e ∧ (u, i) ∉ deleted ∧ e.target = v := by
  unfold Leads
  constructor
  · rintro ⟨e, he, hv⟩
    obtain ⟨i, hi, hd⟩ := mem_successors_without_iff.1 he
    exact ⟨i, e, hi, hd, hv⟩
  · rintro ⟨i, e, hi, hd, hv⟩
    exact ⟨e, mem_successors_without_iff.2 ⟨i, hi, hd⟩, hv⟩

/-- A way through the graph avoids the deleted edges, or it goes along one of them. -/
theorem reaches_without_or {deleted : List (String × Nat)} {u v : String}
    (h : TransGen g.Leads u v) :
    TransGen (g.without deleted).Leads u v ∨
      ∃ n i e, (n, i) ∈ deleted ∧ (g.successors n)[i]? = some e ∧
        ReflTransGen g.Leads u n ∧ ReflTransGen g.Leads e.target v := by
  have edge : ∀ {a b}, g.Leads a b → (g.without deleted).Leads a b ∨
      ∃ i e, (a, i) ∈ deleted ∧ (g.successors a)[i]? = some e ∧ e.target = b := by
    rintro a b ⟨e, he, rfl⟩
    obtain ⟨i, hi⟩ := List.mem_iff_getElem?.1 he
    by_cases hd : (a, i) ∈ deleted
    · exact .inr ⟨i, e, hd, hi, rfl⟩
    · exact .inl (leads_without_iff.2 ⟨i, e, hi, hd, rfl⟩)
  induction h with
  | single hab =>
    rcases edge hab with h | ⟨i, e, hd, hi, rfl⟩
    · exact .inl (.single h)
    · exact .inr ⟨_, i, e, hd, hi, .refl, .refl⟩
  | tail hub hbc ih =>
    rcases ih with h | ⟨n, i, e, hd, hi, hun, hnb⟩
    · rcases edge hbc with k | ⟨i, e, hd, hi, rfl⟩
      · exact .inl (h.tail k)
      · exact .inr ⟨_, i, e, hd, hi, hub.to_reflTransGen, .refl⟩
    · exact .inr ⟨n, i, e, hd, hi, hun, hnb.tail hbc⟩

end Graph

/-! ## Reports -/

/-- The edges form the simple cycle that the report spells: they lead from its type back to it,
meet no type twice, and their texts follow the type in the chain. -/
structure CycleReport.Traces (r : CycleReport) (g : Graph) (es : List Edge) : Prop where
  walk : g.Walk r.typeName es r.typeName
  ne_nil : es ≠ []
  nodup : (es.map Edge.target).Nodup
  chain : r.chain = r.typeName :: es.map Edge.text

theorem CycleReport.Traces.onCycle {r : CycleReport} {g : Graph} {es : List Edge}
    (h : r.Traces g es) : g.OnCycle r.typeName := h.walk.onCycle h.ne_nil

theorem CycleReport.Traces.connected {r : CycleReport} {g : Graph} {es : List Edge}
    (h : r.Traces g es) {m : String} (hm : m ∈ es.map Edge.target) : g.Connected r.typeName m :=
  h.walk.reaches_target hm

theorem CycleReport.Traces.onCycle_of_mem {r : CycleReport} {g : Graph} {es : List Edge}
    (h : r.Traces g es) {m : String} (hm : m ∈ es.map Edge.target) : g.OnCycle m :=
  h.onCycle.of_connected (h.connected hm)

theorem CycleReport.Traces.targets_eq {r : CycleReport} {g : Graph} {es : List Edge}
    (h : r.Traces g es) :
    es.map Edge.target = (es.map Edge.target).dropLast ++ [r.typeName] := by
  have hne : es.map Edge.target ≠ [] := by simpa using h.ne_nil
  have hlast := h.walk.getLast?
  rw [List.getLast?_cons, List.getLast?_eq_some_getLast hne] at hlast
  have heq : (es.map Edge.target).getLast hne = r.typeName := Option.some.inj hlast
  rw [← heq, List.dropLast_concat_getLast hne]

theorem CycleReport.Traces.typeName_mem {r : CycleReport} {g : Graph} {es : List Edge}
    (h : r.Traces g es) : r.typeName ∈ es.map Edge.target := by
  rw [h.targets_eq]
  simp

/-- The types of the cycle are distinct until the last one, which is the first again. -/
theorem CycleReport.Traces.nodup_dropLast {r : CycleReport} {g : Graph} {es : List Edge}
    (h : r.Traces g es) : (r.typeName :: es.map Edge.target).dropLast.Nodup := by
  have hnodup := h.nodup
  rw [h.targets_eq] at hnodup ⊢
  rw [← List.cons_append, List.dropLast_concat]
  exact (List.perm_append_singleton _ _).nodup_iff.1 hnodup

/-- The edge at the occurrence is the last one of the cycle that the report spells. -/
def Graph.Closes (g : Graph) (o : String × Nat) (r : CycleReport) : Prop :=
  ∃ e es, (g.successors o.1)[o.2]? = some e ∧ e.target = r.typeName ∧
    r.chain.getLast? = some e.text ∧ g.Walk r.typeName es o.1 ∧ r.Traces g (es ++ [e])

end HierarchyLint
