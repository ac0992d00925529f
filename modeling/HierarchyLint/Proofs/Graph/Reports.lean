import HierarchyLint.Proofs.Graph.FirstFound
import HierarchyLint.Proofs.Graph.WayBack

/-!
# Cycle reports

What the two ways of reporting have in common: every report spells a simple cycle of the graph,
and there is one as soon as the graph has a cycle. The reports for each member name exactly the
types on cycles (`map_typeName_perMember`), among them every type that a cycle found in the one
search through the graph passes.
-/

namespace HierarchyLint.Graph

variable {g : Graph} {mode : CycleReporting} {r : CycleReport}

theorem OnCycle.mem_nodes {n : String} (h : g.OnCycle n) : n ∈ g.nodes := by
  obtain ⟨_, ⟨e, he, -⟩, -⟩ := Relation.TransGen.head'_iff.1 h
  exact mem_nodes_of_mem_successors he

theorem exists_cycleThrough_iff {n : String} :
    (∃ r, g.cycleThrough n = some r) ↔ g.OnCycle n := by
  rw [← Option.ne_none_iff_exists', ne_eq, cycleThrough_eq_none_iff, Classical.not_not]

/-- The search from a type decides whether there is a way back to it. -/
instance (g : Graph) : DecidablePred g.OnCycle := fun n =>
  decidable_of_iff ((g.cycleThrough n).isSome = true) <| by
    rw [Option.isSome_iff_exists, exists_cycleThrough_iff]

theorem traces_of_mem_cycles (hr : r ∈ g.cycles mode) : ∃ es, r.Traces g es := by
  cases mode with
  | firstFound => exact traces_of_mem_firstFound hr
  | perMember =>
    obtain ⟨n, -, hn⟩ := List.mem_filterMap.1 hr
    exact (traces_of_cycleThrough hn).2

theorem cycles_eq_nil_iff : g.cycles mode = [] ↔ g.Acyclic := by
  cases mode with
  | firstFound => exact firstFound_eq_nil_iff
  | perMember =>
    rw [cycles, List.filterMap_eq_nil_iff]
    constructor
    · intro h n hn
      exact cycleThrough_eq_none_iff.1 (h n hn.mem_nodes) hn
    · intro h n _
      exact cycleThrough_eq_none_iff.2 (h n)

/-! ## One report for each member -/

theorem map_typeName_cycleThrough (n : String) :
    (g.cycleThrough n).map CycleReport.typeName = Option.guard (fun n => g.OnCycle n) n := by
  cases h : g.cycleThrough n with
  | none =>
    have hn : ¬ g.OnCycle n := cycleThrough_eq_none_iff.1 h
    simp [Option.guard, hn]
  | some r =>
    have hn : g.OnCycle n := exists_cycleThrough_iff.1 ⟨r, h⟩
    simp [Option.guard, hn, (traces_of_cycleThrough h).1]

/-- The types of the reports are the nodes on cycles, in the order of their declaration. -/
theorem map_typeName_perMember (g : Graph) :
    (g.cycles .perMember).map CycleReport.typeName = g.nodes.filter fun n => g.OnCycle n := by
  rw [cycles, List.map_filterMap, ← List.filterMap_eq_filter]
  simp only [map_typeName_cycleThrough]

theorem nodup_typeName_perMember (g : Graph) :
    ((g.cycles .perMember).map CycleReport.typeName).Nodup := by
  rw [map_typeName_perMember]
  exact g.edges.nodup.filter _

theorem exists_perMember_iff {n : String} :
    (∃ r ∈ g.cycles .perMember, r.typeName = n) ↔ g.OnCycle n := by
  rw [← List.mem_map, map_typeName_perMember, List.mem_filter, decide_eq_true_iff]
  exact and_iff_right_of_imp OnCycle.mem_nodes

/-- There is a report from a type exactly if the type can be reached from itself, so the reports
for each member are about the declared types on cycles, each once and in the order of declaration.
The one search through the graph finds a cycle exactly if one of these is found, and it passes
only types that have such a report. -/
theorem perMember_covers_firstFound (g : Graph) :
    (∀ n, (∃ r, g.cycleThrough n = some r) ↔ g.OnCycle n) ∧
    ((g.cycles .perMember).map CycleReport.typeName = g.nodes.filter fun n => g.OnCycle n) ∧
    ((g.cycles .perMember).map CycleReport.typeName).Nodup ∧
    (∀ n, g.OnCycle n → n ∈ g.nodes) ∧
    (g.cycles .firstFound ≠ [] ↔ g.cycles .perMember ≠ []) ∧
    (∀ r ∈ g.cycles .firstFound, (∃ es, r.Traces g es) ∧ ∀ es, r.Traces g es →
      ∀ m ∈ es.map Edge.target, ∃ s ∈ g.cycles .perMember, s.typeName = m) := by
  refine ⟨fun n => exists_cycleThrough_iff, map_typeName_perMember g, nodup_typeName_perMember g,
    fun n hn => hn.mem_nodes, ?_, fun r hr => ⟨traces_of_mem_cycles hr, fun es ht m hm => ?_⟩⟩
  · rw [ne_eq, ne_eq, cycles_eq_nil_iff, cycles_eq_nil_iff]
  · exact exists_perMember_iff.2 (ht.onCycle_of_mem hm)

end HierarchyLint.Graph
