import HierarchyLint.Proofs.Hierarchy.Reordering
import HierarchyLint.Proofs.Validation.Checks
import HierarchyLint.Proofs.Validation.Kinds

/-!
# Validation and the order of declarations

Each check goes through the declarations in turn, so in another order it finds the same problems in
another order. The one search through the whole graph is the exception: which cycles it reports
depends on where it starts, but not whether it reports any.
-/

namespace HierarchyLint

namespace Hierarchy.Reorders

variable {h h' : Hierarchy} (hr : h.Reorders h')
include hr

theorem nameConflicts_perm : h.nameConflicts.Perm h'.nameConflicts := by
  unfold Hierarchy.nameConflicts
  rw [caseGroups_eq_nil_iff.2 hr.distinct, caseGroups_eq_nil_iff.2 hr.distinct_right]
  exact hr.duplicates.map _

theorem illegalCharacters_perm : h.illegalCharacters.Perm h'.illegalCharacters :=
  hr.names_perm.filterMap _

theorem genericNames_perm : h.genericNames.Perm h'.genericNames :=
  (hr.names_perm.filter _).map _

theorem badSupertypes_perm : (badSupertypes h.supertypes).Perm (badSupertypes h'.supertypes) :=
  hr.supertypes_perm.flatMap_right _

theorem circularDependencies_perm {c : Config} (hc : c.cycleReporting = .perMember) :
    (circularDependencies c (.ofHierarchy h)).Perm (circularDependencies c (.ofHierarchy h')) := by
  unfold circularDependencies
  rw [hc]
  split
  · exact (Graph.perMember_perm hr.edges_perm).map _
  · rfl

theorem circularDependencies_eq_nil_iff (c : Config) :
    circularDependencies c (.ofHierarchy h') = [] ↔
      circularDependencies c (.ofHierarchy h) = [] := by
  unfold circularDependencies
  split
  · rw [List.map_eq_nil_iff, List.map_eq_nil_iff, Graph.cycles_eq_nil_iff_of_perm hr.edges_perm]
  · rfl

theorem findings_perm {c : Config} (hc : c.cycleReporting = .perMember) :
    (h.findings c).Perm (h'.findings c) :=
  (((hr.nameConflicts_perm.append hr.illegalCharacters_perm).append hr.genericNames_perm).append
    hr.badSupertypes_perm).append (hr.circularDependencies_perm hc)

/-- Apart from cycles, the findings are the same whichever cycles are reported. -/
theorem findings_not_circular_perm (c : Config) :
    ((h.findings c).filter fun f => f.kind ≠ .circularDependency).Perm
      ((h'.findings c).filter fun f => f.kind ≠ .circularDependency) := by
  rw [filter_findings_not_circularDependency, filter_findings_not_circularDependency]
  exact ((hr.nameConflicts_perm.append hr.illegalCharacters_perm).append hr.genericNames_perm).append
    hr.badSupertypes_perm

end Hierarchy.Reorders

/-! ## Diagnostics -/

theorem exists_circular_iff {c : Config} {v : Value} {h : Hierarchy}
    (hv : Hierarchy.ofValue? v = some h) :
    (∃ d ∈ validate c v, d.kind = .circularDependency) ↔
      Hierarchy.circularDependencies c (.ofHierarchy h) ≠ [] := by
  have hnone : diagnosticsOf c .circularDependency v = [] ↔
      Hierarchy.circularDependencies c (.ofHierarchy h) = [] := by
    rw [diagnosticsOf_circularDependency c hv, List.map_eq_nil_iff]
  rw [ne_eq, ← hnone, diagnosticsOf, List.filter_eq_nil_iff]
  simp

/-- If the keys of a mapping differ by more than case, its entries in another order have the same
diagnostics in another order, but for cycles. There are diagnostics about cycles for both or for
none, and where a cycle is reported for each of its members these are the same as well. -/
theorem reordered_declarations_same_diagnostics (c : Config) (v v' : Value)
    (entries : List (Value × Value)) (he : v.entries? = some entries)
    (hkeys : (entries.map fun e => Text.lower e.1.text).Nodup) (hr : v.Reorders v') :
    ((validate c v).filter fun d => d.kind ≠ .circularDependency).Perm
      ((validate c v').filter fun d => d.kind ≠ .circularDependency) ∧
    ((∃ d ∈ validate c v, d.kind = .circularDependency) ↔
      ∃ d ∈ validate c v', d.kind = .circularDependency) ∧
    (c.cycleReporting = .perMember → (validate c v).Perm (validate c v')) ∧
    ∃ h h', Hierarchy.ofValue? v = some h ∧ Hierarchy.ofValue? v' = some h' ∧
      ((Graph.ofHierarchy h).cycles .perMember).Perm ((Graph.ofHierarchy h').cycles .perMember) := by
  obtain ⟨h, h', hv, hv', hreorders⟩ := hr.ofValue? he hkeys
  refine ⟨?_, ?_, fun hc => ?_, h, h', hv, hv', Graph.perMember_perm hreorders.edges_perm⟩
  · rw [filter_validate c v fun k => k ≠ .circularDependency,
      filter_validate c v' fun k => k ≠ .circularDependency, findings_eq hv, findings_eq hv']
    exact (hreorders.findings_not_circular_perm c).filterMap _
  · rw [exists_circular_iff hv, exists_circular_iff hv', ne_eq, ne_eq,
      hreorders.circularDependencies_eq_nil_iff]
  · rw [validate, validate, findings_eq hv, findings_eq hv']
    exact (hreorders.findings_perm hc).filterMap _

/-- A cycle of two types and a third type that leads to it, with a reference that does not parse. -/
def ringEntries : List (Value × Value) :=
  [(.str "A", .map [(.str "fulfills", .list [.str "B"])]),
    (.str "B", .map [(.str "fulfills", .list [.str "A[", .str "a"])]),
    (.int 3, .map [(.str "fulfills", .list [.str "b"])])]

/-- The cycle that the one search reports depends on the order, the others do not. -/
theorem reordered_ringEntries :
    Value.entries? (.map ringEntries) = some ringEntries ∧
      (ringEntries.map fun e => Text.lower e.1.text).Nodup ∧
      (Value.map ringEntries).Reorders (.map ringEntries.reverse) ∧
      (Graph.ofHierarchy (.ofEntries ringEntries)).cycles .firstFound
        = [⟨"A", ["A", "B", "a"]⟩] ∧
      (Graph.ofHierarchy (.ofEntries ringEntries.reverse)).cycles .firstFound
        = [⟨"B", ["B", "a", "B"]⟩] ∧
      (validate { cycleReporting := .perMember } (.map ringEntries)).Perm
        (validate { cycleReporting := .perMember } (.map ringEntries.reverse)) := by
  have he : Value.entries? (.map ringEntries) = some ringEntries := rfl
  have hkeys : (ringEntries.map fun e => Text.lower e.1.text).Nodup := by decide +kernel
  have hr : (Value.map ringEntries).Reorders (.map ringEntries.reverse) :=
    .map (List.reverse_perm _).symm
  obtain ⟨-, -, hmembers, -⟩ :=
    reordered_declarations_same_diagnostics { cycleReporting := .perMember } _ _ _ he hkeys hr
  refine ⟨he, hkeys, hr, ?_, ?_, hmembers rfl⟩
  · decide +kernel
  · decide +kernel

end HierarchyLint
