import HierarchyLint.Proofs.Hierarchy.Normal
import HierarchyLint.Proofs.Validation.Kinds

/-!
# Validation of normal forms

What a hierarchy is written as is validated like the hierarchy itself, for every check reads names
and references only. The keys left over are the exception: they are not written, and so the
conflicts about them are missing, while all other diagnostics stay in their order.
-/

namespace HierarchyLint

namespace Hierarchy

variable {h : Hierarchy}

/-! ## Findings in three parts -/

def caseConflicts (h : Hierarchy) : List Finding :=
  h.caseGroups.filterMap fun
    | [] => none
    | first :: others => some (.nameConflict first (others.map .str))

/-- The findings about names that several keys have. -/
def repeatedConflicts (h : Hierarchy) : List Finding :=
  h.duplicates.map fun d => .nameConflict d.1 d.2

def laterFindings (c : Config) (h : Hierarchy) : List Finding :=
  h.illegalCharacters ++ h.genericNames ++ badSupertypes h.supertypes
    ++ circularDependencies c (.ofHierarchy h)

theorem findings_eq_append (c : Config) (h : Hierarchy) :
    h.findings c = h.caseConflicts ++ h.repeatedConflicts ++ h.laterFindings c := by
  unfold findings laterFindings
  simp only [List.append_assoc]
  rw [nameConflicts, List.append_assoc]
  rfl

theorem mem_caseConflicts {f : Finding} (hf : f ∈ h.caseConflicts) :
    ∃ first others, f = .nameConflict first (others.map .str) ∧ first :: others ∈ h.caseGroups := by
  obtain ⟨group, hgroup, hf⟩ := List.mem_filterMap.1 hf
  cases group with
  | nil => cases hf
  | cons first others => cases hf; exact ⟨first, others, rfl, hgroup⟩

theorem kind_of_mem_laterFindings {c : Config} {f : Finding} (hf : f ∈ h.laterFindings c) :
    f.kind ≠ .nameConflict := by
  simp only [laterFindings, List.mem_append] at hf
  rcases hf with ((hf | hf) | hf) | hf
  · rw [kind_of_mem_illegalCharacters hf]
    decide
  · rw [kind_of_mem_genericNames hf]
    decide
  · rcases kind_of_mem_badSupertypes hf with hk | hk
    · rw [hk]
      decide
    · rw [hk]
      decide
  · rw [kind_of_mem_circularDependencies hf]
    decide

/-! ## Normal forms -/

theorem caseConflicts_normal (h : Hierarchy) : h.normal.caseConflicts = h.caseConflicts := by
  unfold caseConflicts caseGroups
  rw [names_normal]

theorem canonical_normal (h : Hierarchy) : h.normal.canonical = h.canonical := by
  unfold canonical
  rw [names_normal]

theorem supertypes_normal (h : Hierarchy) : h.normal.supertypes = h.supertypes := by
  unfold supertypes
  rw [canonical_normal]
  unfold normal
  rw [Table.mapValues_mapValues]
  rfl

theorem laterFindings_normal (c : Config) (h : Hierarchy) :
    h.normal.laterFindings c = h.laterFindings c := by
  unfold laterFindings illegalCharacters genericNames Graph.ofHierarchy
  rw [names_normal, supertypes_normal]

theorem findings_normal (c : Config) (h : Hierarchy) :
    h.normal.findings c = h.caseConflicts ++ h.laterFindings c := by
  rw [findings_eq_append, caseConflicts_normal, laterFindings_normal]
  exact congrArg (· ++ h.laterFindings c) (List.append_nil _)

end Hierarchy

/-! ## Diagnostics -/

variable {c : Config} {h : Hierarchy} {d : Diagnostic}

def repeatedDiagnostics (c : Config) (h : Hierarchy) : List Diagnostic :=
  if c.isEnabled .nameConflict then
    h.duplicates.map fun e => (Finding.nameConflict e.1 e.2).diagnostic c
  else []

theorem filterMap_repeatedConflicts (c : Config) (h : Hierarchy) :
    h.repeatedConflicts.filterMap (Finding.diagnose? c) = repeatedDiagnostics c h := by
  have hkind : ∀ f ∈ h.repeatedConflicts, f.kind = .nameConflict := by
    intro f hf
    obtain ⟨e, -, rfl⟩ := List.mem_map.1 hf
    rfl
  unfold repeatedDiagnostics
  rw [filterMap_diagnose?_eq, Hierarchy.filter_eq_of_kind hkind]
  split
  · exact List.map_map
  · rfl

theorem mem_filterMap_caseConflicts (hd : d ∈ h.caseConflicts.filterMap (Finding.diagnose? c)) :
    d.kind = .nameConflict ∧ ∃ first others, d.args = [.str first, .list (others.map .str)] ∧
      first :: others ∈ h.caseGroups := by
  rw [filterMap_diagnose?_eq] at hd
  obtain ⟨f, hf, rfl⟩ := List.mem_map.1 hd
  obtain ⟨first, others, rfl, hgroup⟩ := Hierarchy.mem_caseConflicts (List.mem_of_mem_filter hf)
  exact ⟨rfl, first, others, rfl, hgroup⟩

theorem kind_of_mem_filterMap_laterFindings
    (hd : d ∈ (h.laterFindings c).filterMap (Finding.diagnose? c)) : d.kind ≠ .nameConflict := by
  rw [filterMap_diagnose?_eq] at hd
  obtain ⟨f, hf, rfl⟩ := List.mem_map.1 hd
  exact Hierarchy.kind_of_mem_laterFindings (List.mem_of_mem_filter hf)

/-- A mapping and the hierarchy that it declares have the same diagnostics. What the hierarchy is
written as has them all but those about the keys left over, which stand in one piece behind the
other conflicts between names. In a plain mapping these are the keys behind the first with their
text. -/
theorem written_hierarchy_same_diagnostics (c : Config) (v : Value)
    (entries : List (Value × Value)) (he : v.entries? = some entries) :
    ∃ h, Hierarchy.ofValue? v = some h ∧
      validate c (.hierarchy h.decls h.duplicates) = validate c v ∧
      (∃ front back, validate c v = front ++ repeatedDiagnostics c h ++ back ∧
        validate c h.toValue = front ++ back ∧
        (∀ d ∈ front, d.kind = .nameConflict ∧ ∃ first others,
          d.args = [.str first, .list (others.map .str)] ∧ first :: others ∈ h.caseGroups) ∧
        ∀ d ∈ back, d.kind ≠ .nameConflict) ∧
      (v = .map entries → (h.duplicates.map Prod.fst).Nodup ∧ ∀ name keys,
        (name, keys) ∈ h.duplicates ↔ keys ≠ [] ∧ keys = laterKeys entries name) := by
  obtain ⟨h, hv⟩ := Hierarchy.exists_ofValue? he
  refine ⟨h, hv, ?_, ⟨h.caseConflicts.filterMap (Finding.diagnose? c),
    (h.laterFindings c).filterMap (Finding.diagnose? c), ?_, ?_,
    fun d hd => mem_filterMap_caseConflicts hd,
    fun d hd => kind_of_mem_filterMap_laterFindings hd⟩, ?_⟩
  · have hself : Hierarchy.ofValue? (.hierarchy h.decls h.duplicates) = some h := rfl
    rw [validate, validate, findings_eq hself, findings_eq hv]
  · rw [validate, findings_eq hv, Hierarchy.findings_eq_append, List.filterMap_append,
      List.filterMap_append, filterMap_repeatedConflicts]
  · rw [validate, findings_eq h.ofValue?_toValue, Hierarchy.findings_normal, List.filterMap_append]
  · rintro rfl
    cases hv
    exact ⟨Hierarchy.nodup_duplicates_ofEntries entries, fun name keys =>
      Hierarchy.mem_duplicates_ofEntries_iff⟩

/-- Two keys with one name, two names that differ by case, a reference to nothing and a declaration
of which nothing is written. -/
def repeatedEntries : List (Value × Value) :=
  [(.int 1, .map [(.str "fulfills", .list [.str "gone", .int 3]), (.str "params", .str "A")]),
    (.str "1", .map [(.str "fulfills", .list [.str "lost"])]),
    (.str "A", .str "1"),
    (.str "a", .decl ⟨["A"], [⟨"B", .other "co"⟩]⟩)]

theorem written_repeatedEntries_same_diagnostics :
    Value.entries? (.map repeatedEntries) = some repeatedEntries ∧
      (repeatedDiagnostics {} (.ofEntries repeatedEntries)).map Diagnostic.message
        = [.ok "The type name '1' conflicts with the type name(s) ['1']"] ∧
      (validate {} (.map repeatedEntries)).length = 6 ∧
      ∃ front back,
        validate {} (.map repeatedEntries)
          = front ++ repeatedDiagnostics {} (.ofEntries repeatedEntries) ++ back ∧
        validate {} (Hierarchy.ofEntries repeatedEntries).toValue = front ++ back := by
  have he : Value.entries? (.map repeatedEntries) = some repeatedEntries := rfl
  obtain ⟨h, hv, -, ⟨front, back, hall, hwritten, -, -⟩, -⟩ :=
    written_hierarchy_same_diagnostics {} _ _ he
  cases hv
  refine ⟨he, ?_, ?_, front, back, hall, hwritten⟩
  · decide +kernel
  · decide +kernel

end HierarchyLint
