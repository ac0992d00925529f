import HierarchyLint.Validation
import HierarchyLint.Proofs.Hierarchy.Edges
import HierarchyLint.Proofs.Hierarchy.Positions

/-!
# When a check finds nothing

One statement for each check of a hierarchy: it finds nothing exactly if the declared names and
their references have the property that the check is about. Together they say when a hierarchy
has no findings at all (`findings_eq_nil_iff`).
-/

namespace HierarchyLint

namespace Config

theorem isEnabled_of_disabled_eq_nil {c : Config} (hc : c.disabled = []) (k : DiagnosticKind) :
    c.isEnabled k = true := by
  simp [isEnabled, hc]

end Config

theorem illegalSort?_eq_none_iff {c : Char} :
    illegalSort? c = none ↔ c ≠ ',' ∧ c ≠ ' ' ∧ c ≠ '[' ∧ c ≠ ']' := by
  unfold illegalSort?
  split
  · simp_all
  · split
    · simp_all
    · split
      · simp_all
      · split <;> simp_all

namespace Hierarchy

variable {h : Hierarchy} {entries : List (Value × Value)}

theorem nameConflicts_eq_nil_iff :
    h.nameConflicts = [] ↔ (h.names.map Text.lower).Nodup ∧ h.duplicates = [] := by
  rw [nameConflicts, List.append_eq_nil_iff, List.map_eq_nil_iff, List.filterMap_eq_nil_iff,
    ← caseGroups_eq_nil_iff]
  refine and_congr_left' ?_
  rw [List.eq_nil_iff_forall_not_mem]
  refine forall_congr' fun group => ?_
  constructor
  · intro hnone hg
    obtain ⟨key, -, hlen⟩ := mem_caseGroups_iff.1 hg
    cases group with
    | nil => exact absurd hlen (Nat.not_lt_zero 1)
    | cons first others => cases hnone hg
  · exact fun hnone hg => absurd hg hnone

/-- The declared names differ by more than case and no key is left over exactly if the keys of the
mapping differ by more than case. -/
theorem distinct_iff :
    ((ofEntries entries).names.map Text.lower).Nodup ∧ (ofEntries entries).duplicates = [] ↔
      (entries.map fun a => Text.lower a.1.text).Nodup := by
  rw [duplicates_ofEntries_eq_nil_iff]
  constructor
  · rintro ⟨hlower, htext⟩
    rwa [names_ofEntries htext, List.map_map] at hlower
  · intro hd
    have htext := nodup_text hd
    rw [names_ofEntries htext, List.map_map]
    exact ⟨hd, htext⟩

theorem nameConflicts_ofEntries_eq_nil_iff :
    (ofEntries entries).nameConflicts = [] ↔
      (entries.map fun a => Text.lower a.1.text).Nodup := by
  rw [nameConflicts_eq_nil_iff, distinct_iff]

theorem illegalCharacters_eq_nil_iff :
    h.illegalCharacters = [] ↔
      ∀ n ∈ h.names, ∀ c ∈ n.toList, c ≠ ',' ∧ c ≠ ' ' ∧ c ≠ '[' ∧ c ≠ ']' := by
  simp only [illegalCharacters, List.filterMap_eq_nil_iff, List.findSome?_eq_none_iff,
    Option.map_eq_none_iff, illegalSort?_eq_none_iff]

theorem genericNames_eq_nil_iff : h.genericNames = [] ↔ ∀ n ∈ h.names, n.length ≠ 1 := by
  simp [genericNames, List.filter_eq_nil_iff, isGenericName]

theorem supertypeFinding?_eq_none_iff {name text : String} :
    supertypeFinding? name ⟨name, text, .ofText h.canonical text⟩ = none ↔
      ∃ target, SupertypeRef.target? ⟨name, text, .ofText h.canonical text⟩ = some target := by
  unfold supertypeFinding? SupertypeRef.target?
  cases Resolution.ofText h.canonical text <;> simp

theorem badSupertypes_eq_nil_iff :
    badSupertypes h.supertypes = [] ↔
      ∀ n d, h.decls.get? n = some d → ∀ text ∈ d.fulfills, ∃ m, h.RefersBy n text m := by
  have href : ∀ n d, h.decls.get? n = some d → ∀ text ∈ d.fulfills,
      ((∃ m, h.RefersBy n text m) ↔ ∃ m,
        SupertypeRef.target? ⟨n, text, .ofText h.canonical text⟩ = some m) := by
    intro n d hd text htext
    refine exists_congr fun m => ?_
    rw [target?_ofText]
    constructor
    · rintro ⟨_, e, -, -, he, hm⟩
      exact ⟨e, he, hm⟩
    · rintro ⟨e, he, hm⟩
      exact ⟨d, e, hd, htext, he, hm⟩
  simp only [badSupertypes, supertypes, Table.mapValues, List.flatMap_map, List.flatMap_eq_nil_iff,
    List.filterMap_map, List.filterMap_eq_nil_iff, Function.comp_def, Prod.forall,
    supertypeFinding?_eq_none_iff, ← Table.get?_eq_some_iff]
  exact forall_congr' fun n => forall_congr' fun d => forall_congr' fun hd =>
    forall_congr' fun text => forall_congr' fun htext => (href n d hd text htext).symm

theorem circularDependencies_eq_nil_iff {c : Config} (hc : c.disabled = []) {g : Graph} :
    circularDependencies c g = [] ↔ g.Acyclic := by
  rw [circularDependencies, if_pos (Config.isEnabled_of_disabled_eq_nil hc _),
    List.map_eq_nil_iff, Graph.cycles_eq_nil_iff]

/-- With every check switched on, a hierarchy has no findings exactly if its names differ by more
than case, hold no illegal character and are not generic, its references lead to declared types
and its graph has no cycle. -/
theorem findings_eq_nil_iff {c : Config} (hc : c.disabled = []) :
    h.findings c = [] ↔
      ((h.names.map Text.lower).Nodup ∧ h.duplicates = []) ∧
      (∀ n ∈ h.names, ∀ c ∈ n.toList, c ≠ ',' ∧ c ≠ ' ' ∧ c ≠ '[' ∧ c ≠ ']') ∧
      (∀ n ∈ h.names, n.length ≠ 1) ∧
      (∀ n d, h.decls.get? n = some d → ∀ text ∈ d.fulfills, ∃ m, h.RefersBy n text m) ∧
      (Graph.ofHierarchy h).Acyclic := by
  simp only [findings, List.append_eq_nil_iff, nameConflicts_eq_nil_iff,
    illegalCharacters_eq_nil_iff, genericNames_eq_nil_iff, badSupertypes_eq_nil_iff,
    circularDependencies_eq_nil_iff hc, and_assoc]
  rfl

end Hierarchy

/-- With every check switched on, each finding becomes a diagnostic. -/
theorem validate_eq_nil_iff_findings {c : Config} (hc : c.disabled = []) {v : Value} :
    validate c v = [] ↔ findings c v = [] := by
  rw [validate, List.filterMap_eq_nil_iff, List.eq_nil_iff_forall_not_mem]
  refine forall_congr' fun f => ?_
  simp [Finding.diagnose?, Config.isEnabled_of_disabled_eq_nil hc]

end HierarchyLint
