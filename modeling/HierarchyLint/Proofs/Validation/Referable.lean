import HierarchyLint.Proofs.Expr.Caseless
import HierarchyLint.Proofs.Hierarchy.CaseGroups
import HierarchyLint.Proofs.Hierarchy.Edges
import HierarchyLint.Proofs.Validation.LegalNames

/-!
# Types that references lead to

A reference leads to the first declared type with the lower-case form of a name of the grammar. So
only some of the declared types have edges to them (`Referable`): a type whose name holds a bracket,
a comma or a blank has none, and neither has the later of two types that differ by case. Every type
on a cycle has an edge to it, so what is reported about the others and what is reported about cycles
concern different types.
-/

namespace HierarchyLint.Hierarchy

variable {h : Hierarchy} {m n text : String}

/-- A reference can lead to the type: it is declared, no type declared before it has its lower-case
form, and its name is one of the grammar. -/
structure Referable (h : Hierarchy) (m : String) : Prop where
  declared : m ∈ h.names
  resolve : h.resolve m = some m
  first : ∃ before after, h.names = before ++ m :: after ∧
    ∀ n ∈ before, Text.lower n ≠ Text.lower m
  isName : IsName m.toList

theorem isName_of_parse {e : TypeExpr} (he : TypeExpr.parse text = .ok e) :
    IsName e.name.toList := by
  cases e
  exact (parse_eq_ok_iff_spells.1 he).isName .front

theorem RefersBy.referable (hr : h.RefersBy n text m) : h.Referable m := by
  obtain ⟨d, e, -, -, he, hm⟩ := id hr
  have hself := resolve_target hm
  have hname : IsName m.toList := by
    rw [← isName_lower_iff, lower_eq_of_resolve hm, isName_lower_iff]
    exact isName_of_parse he
  obtain ⟨before, after, hnames, -, hbefore⟩ := resolve_eq_some_iff_first.1 hself
  exact ⟨hr.mem_names, hself, ⟨before, after, hnames, hbefore⟩, hname⟩

theorem referable_of_traces {r : CycleReport} {es : List Edge}
    (ht : r.Traces (Graph.ofHierarchy h) es) (hm : m ∈ es.map Edge.target) : h.Referable m := by
  obtain ⟨e, he, rfl⟩ := List.mem_map.1 hm
  obtain ⟨i, hi⟩ := List.mem_iff_getElem?.1 he
  obtain ⟨n, -, hs⟩ := ht.walk.mem_successors hi
  exact (mem_successors_iff.1 hs).referable

theorem Referable.not_illegalCharacter (hm : h.Referable m) {v : Value} (hv : ofValue? v = some h)
    {c : Config} {d : Diagnostic} (hd : d ∈ diagnosticsOf c .illegalCharacter v) :
    d.args.head? ≠ some (.str m) := by
  intro hargs
  obtain ⟨f, hf, rfl⟩ := exists_of_mem_diagnosticsOf_illegalCharacter hv hd
  obtain ⟨name, sort, char, -, hchar, hsort, rfl⟩ := exists_of_mem_illegalCharacters hf
  obtain rfl : name = m := by
    cases hargs
    rfl
  have hnone := ((isName_toList_iff.1 hm.isName).2 char hchar).1
  exact nomatch hsort.symm.trans hnone

/-- Every edge leads to a type that can be referred to: a declared one that is the first with its
lower-case form, and whose name is a name of the grammar. So whichever cycles are reported, no type
on them has an illegal character reported, and none is a later one of a group of names that differ
by case. -/
theorem edge_targets_referable {v : Value} {h : Hierarchy} (hv : ofValue? v = some h) :
    (∀ n, ∀ e ∈ (Graph.ofHierarchy h).successors n, h.Referable e.target) ∧
    ∀ mode, ∀ r ∈ (Graph.ofHierarchy h).cycles mode,
      (∃ es, r.Traces (Graph.ofHierarchy h) es) ∧
      ∀ es, r.Traces (Graph.ofHierarchy h) es → ∀ m ∈ es.map Edge.target, h.Referable m ∧
        (∀ c, ∀ d ∈ diagnosticsOf c .illegalCharacter v, d.args.head? ≠ some (.str m)) ∧
        ∀ group ∈ h.caseGroups, m ∉ group.tail := by
  refine ⟨fun n e he => (mem_successors_iff.1 he).referable, fun mode r hr =>
    ⟨Graph.traces_of_mem_cycles hr, fun es ht m hm => ?_⟩⟩
  have hreferable := referable_of_traces ht hm
  exact ⟨hreferable, fun c d hd => hreferable.not_illegalCharacter hv hd,
    fun group hg => notMem_tail_of_resolve hg hreferable.resolve⟩

/-- A cycle of `B` and `C`, beside a type that is `B` but for case and one with a blank in its
name. -/
def shadowedEntries : List (Value × Value) :=
  [(.str "A b", .map [(.str "fulfills", .list [.str "b"])]),
    (.str "B", .map [(.str "fulfills", .list [.str "C"])]),
    (.str "b", .map [(.str "fulfills", .list [.str "B[C]"])]),
    (.str "C", .map [(.str "fulfills", .list [.str "b"])])]

theorem edge_targets_shadowedEntries :
    ofValue? (.map shadowedEntries) = some (ofEntries shadowedEntries) ∧
    ["B", "b"] ∈ (ofEntries shadowedEntries).caseGroups ∧
    ⟨"B", ["B", "C", "b"]⟩ ∈ (Graph.ofHierarchy (ofEntries shadowedEntries)).cycles .firstFound ∧
    ∃ es, CycleReport.Traces ⟨"B", ["B", "C", "b"]⟩ (Graph.ofHierarchy (ofEntries shadowedEntries))
      es ∧ ∀ m ∈ es.map Edge.target, (ofEntries shadowedEntries).Referable m ∧ m ≠ "b" := by
  have hv : ofValue? (.map shadowedEntries) = some (ofEntries shadowedEntries) := rfl
  have hgroup : ["B", "b"] ∈ (ofEntries shadowedEntries).caseGroups := by decide +kernel
  have hr : ⟨"B", ["B", "C", "b"]⟩ ∈
      (Graph.ofHierarchy (ofEntries shadowedEntries)).cycles .firstFound := by decide +kernel
  obtain ⟨⟨es, ht⟩, hall⟩ := (edge_targets_referable hv).2 .firstFound _ hr
  refine ⟨hv, hgroup, hr, es, ht, fun m hm => ?_⟩
  obtain ⟨hreferable, -, hgroups⟩ := hall es ht m hm
  exact ⟨hreferable, fun hb => hgroups _ hgroup (hb ▸ List.mem_singleton.2 rfl)⟩

end HierarchyLint.Hierarchy
