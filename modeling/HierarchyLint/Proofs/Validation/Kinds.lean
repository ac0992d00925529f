import HierarchyLint.Validation
import Mathlib.Data.List.Basic

/-!
# Diagnostics by kind

No check makes findings of a kind that another one makes, and a finding keeps its kind when it
becomes a diagnostic. So the diagnostics of certain kinds are those of the checks with these kinds
(`filter_validate`, `filter_findings`).
-/

namespace HierarchyLint

/-- The diagnostic that the finding becomes if its check is switched on. -/
def Finding.diagnostic (c : Config) (f : Finding) : Diagnostic :=
  ⟨f.kind, c.severity f.kind, f.template, f.args⟩

theorem Finding.diagnose?_eq (c : Config) (f : Finding) :
    f.diagnose? c = if c.isEnabled f.kind then some (f.diagnostic c) else none := rfl

/-- The findings of the checks that are switched on become diagnostics. -/
theorem filterMap_diagnose?_eq (c : Config) (fs : List Finding) :
    fs.filterMap (Finding.diagnose? c)
      = (fs.filter fun f => c.isEnabled f.kind).map (Finding.diagnostic c) := by
  rw [← List.filterMap_eq_map, List.filterMap_filter]
  rfl

theorem filterMap_diagnose? {c : Config} {fs : List Finding}
    (hfs : ∀ f ∈ fs, c.isEnabled f.kind = true) :
    fs.filterMap (Finding.diagnose? c) = fs.map (Finding.diagnostic c) := by
  rw [filterMap_diagnose?_eq, List.filter_eq_self.2 hfs]

theorem filter_validate (c : Config) (v : Value) (p : DiagnosticKind → Bool) :
    (validate c v).filter (fun d => p d.kind)
      = ((findings c v).filter fun f => p f.kind).filterMap (Finding.diagnose? c) := by
  rw [validate, List.filter_filterMap, List.filterMap_filter]
  refine List.filterMap_congr fun f _ => ?_
  by_cases hk : c.isEnabled f.kind
  · simp [Finding.diagnose?, hk, Option.filter]
  · simp [Finding.diagnose?, hk]

/-- A finding hands its kind and its arguments on to its diagnostic. -/
theorem map_filterMap_diagnose? (c : Config) (fs : List Finding) :
    (fs.filterMap (Finding.diagnose? c)).map (fun d => (d.kind, d.args))
      = (fs.map fun f => (f.kind, f.args)).filter fun r => c.isEnabled r.1 := by
  induction fs with
  | nil => rfl
  | cons f fs ih =>
    rw [List.filterMap_cons, List.map_cons, List.filter_cons, ← ih, Finding.diagnose?_eq]
    by_cases hk : c.isEnabled f.kind
    · simp [hk, Finding.diagnostic]
    · simp [hk]

def diagnosticsOf (c : Config) (k : DiagnosticKind) (v : Value) : List Diagnostic :=
  (validate c v).filter fun d => d.kind = k

/-! ## What a check finds -/

/-- The finding is one that a check makes when it comes upon a problem of the kind. -/
inductive Finding.FromCheck : Finding → DiagnosticKind → Prop where
  | invalidShape : FromCheck .invalidShape .invalidShape
  | nameConflict (name : String) (others : List Value) :
      FromCheck (.nameConflict name others) .nameConflict
  | illegalCharacter (name sort : String) (c : Char) :
      FromCheck (.illegalCharacter name sort c) .illegalCharacter
  | genericName (name : String) : FromCheck (.genericName name) .genericName
  | unparseableSupertype (name text : String) (e : ParseError) :
      FromCheck (.unparseableSupertype name text e) .unparseableSupertype
  | undefinedSupertype (name base : String) :
      FromCheck (.undefinedSupertype name base) .undefinedSupertype
  | circularDependency (r : CycleReport) : FromCheck (.circularDependency r) .circularDependency

theorem Finding.FromCheck.kind_eq {f : Finding} {k : DiagnosticKind} (hf : f.FromCheck k) :
    f.kind = k := by
  cases hf <;> rfl

namespace Hierarchy

variable {h : Hierarchy} {f : Finding}

theorem fromCheck_of_mem_nameConflicts (hf : f ∈ h.nameConflicts) : f.FromCheck .nameConflict := by
  rcases List.mem_append.1 hf with hf | hf
  · obtain ⟨group, -, hf⟩ := List.mem_filterMap.1 hf
    cases group with
    | nil => cases hf
    | cons first others => cases hf; exact .nameConflict _ _
  · obtain ⟨d, -, rfl⟩ := List.mem_map.1 hf
    exact .nameConflict _ _

theorem exists_of_mem_illegalCharacters (hf : f ∈ h.illegalCharacters) :
    ∃ name sort c, name ∈ h.names ∧ c ∈ name.toList ∧ illegalSort? c = some sort ∧
      f = .illegalCharacter name sort c := by
  obtain ⟨name, hname, hf⟩ := List.mem_filterMap.1 hf
  obtain ⟨c, hc, hf⟩ := List.exists_of_findSome?_eq_some hf
  obtain ⟨sort, hsort, rfl⟩ := Option.map_eq_some_iff.1 hf
  exact ⟨name, sort, c, hname, hc, hsort, rfl⟩

theorem exists_mem_illegalCharacters {name : String} {c : Char} (hn : name ∈ h.names)
    (hc : c ∈ name.toList) (hsort : illegalSort? c ≠ none) :
    ∃ sort d, .illegalCharacter name sort d ∈ h.illegalCharacters := by
  let find := fun c => (illegalSort? c).map fun sort => Finding.illegalCharacter name sort c
  cases hf : name.toList.findSome? find with
  | none =>
    have hnone := List.findSome?_eq_none_iff.1 hf c hc
    exact absurd (Option.map_eq_none_iff.1 hnone) hsort
  | some f =>
    obtain ⟨d, -, hd⟩ := List.exists_of_findSome?_eq_some hf
    obtain ⟨sort, -, rfl⟩ := Option.map_eq_some_iff.1 hd
    exact ⟨sort, d, List.mem_filterMap.2 ⟨name, hn, hf⟩⟩

theorem fromCheck_of_mem_illegalCharacters (hf : f ∈ h.illegalCharacters) :
    f.FromCheck .illegalCharacter := by
  obtain ⟨name, sort, c, -, -, -, rfl⟩ := exists_of_mem_illegalCharacters hf
  exact .illegalCharacter _ _ _

theorem fromCheck_of_mem_genericNames (hf : f ∈ h.genericNames) : f.FromCheck .genericName := by
  obtain ⟨name, -, rfl⟩ := List.mem_map.1 hf
  exact .genericName _

theorem fromCheck_of_mem_badSupertypes {refs : Table (List SupertypeRef)}
    (hf : f ∈ badSupertypes refs) :
    f.FromCheck .unparseableSupertype ∨ f.FromCheck .undefinedSupertype := by
  obtain ⟨entry, -, hf⟩ := List.mem_flatMap.1 hf
  obtain ⟨r, -, hf⟩ := List.mem_filterMap.1 hf
  unfold supertypeFinding? at hf
  split at hf
  · cases hf; exact .inl (.unparseableSupertype _ _ _)
  · cases hf; exact .inr (.undefinedSupertype _ _)
  · cases hf

theorem fromCheck_of_mem_circularDependencies {c : Config} {g : Graph}
    (hf : f ∈ circularDependencies c g) : f.FromCheck .circularDependency := by
  unfold circularDependencies at hf
  split at hf
  · obtain ⟨r, -, rfl⟩ := List.mem_map.1 hf
    exact .circularDependency _
  · cases hf

theorem kind_of_mem_nameConflicts (hf : f ∈ h.nameConflicts) : f.kind = .nameConflict :=
  (fromCheck_of_mem_nameConflicts hf).kind_eq

theorem kind_of_mem_illegalCharacters (hf : f ∈ h.illegalCharacters) :
    f.kind = .illegalCharacter :=
  (fromCheck_of_mem_illegalCharacters hf).kind_eq

theorem kind_of_mem_genericNames (hf : f ∈ h.genericNames) : f.kind = .genericName :=
  (fromCheck_of_mem_genericNames hf).kind_eq

theorem kind_of_mem_badSupertypes {refs : Table (List SupertypeRef)} (hf : f ∈ badSupertypes refs) :
    f.kind = .unparseableSupertype ∨ f.kind = .undefinedSupertype :=
  (fromCheck_of_mem_badSupertypes hf).imp Finding.FromCheck.kind_eq Finding.FromCheck.kind_eq

theorem kind_of_mem_circularDependencies {c : Config} {g : Graph}
    (hf : f ∈ circularDependencies c g) : f.kind = .circularDependency :=
  (fromCheck_of_mem_circularDependencies hf).kind_eq

theorem filter_eq_of_kind {fs : List Finding} {k : DiagnosticKind} (hfs : ∀ f ∈ fs, f.kind = k)
    (p : DiagnosticKind → Bool) : fs.filter (fun f => p f.kind) = if p k then fs else [] := by
  split
  · rename_i hp
    exact List.filter_eq_self.2 fun f hf => by rw [hfs f hf, hp]
  · rename_i hp
    exact List.filter_eq_nil_iff.2 fun f hf => by rwa [hfs f hf]

/-- The findings of certain kinds, check by check. -/
theorem filter_findings (c : Config) (h : Hierarchy) (p : DiagnosticKind → Bool) :
    (h.findings c).filter (fun f => p f.kind)
      = (if p .nameConflict then h.nameConflicts else [])
        ++ (if p .illegalCharacter then h.illegalCharacters else [])
        ++ (if p .genericName then h.genericNames else [])
        ++ (badSupertypes h.supertypes).filter (fun f => p f.kind)
        ++ (if p .circularDependency then circularDependencies c (.ofHierarchy h) else []) := by
  simp only [findings, List.filter_append,
    filter_eq_of_kind fun _ => kind_of_mem_nameConflicts,
    filter_eq_of_kind fun _ => kind_of_mem_illegalCharacters,
    filter_eq_of_kind fun _ => kind_of_mem_genericNames,
    filter_eq_of_kind fun _ => kind_of_mem_circularDependencies]
  rfl

theorem filter_badSupertypes_eq_self {p : DiagnosticKind → Bool}
    (hp : p .unparseableSupertype = true) (hu : p .undefinedSupertype = true)
    (refs : Table (List SupertypeRef)) :
    (badSupertypes refs).filter (fun f => p f.kind) = badSupertypes refs := by
  refine List.filter_eq_self.2 fun f hf => ?_
  rcases kind_of_mem_badSupertypes hf with hk | hk
  · rw [hk, hp]
  · rw [hk, hu]

theorem filter_badSupertypes_eq_nil {p : DiagnosticKind → Bool}
    (hp : p .unparseableSupertype = false) (hu : p .undefinedSupertype = false)
    (refs : Table (List SupertypeRef)) : (badSupertypes refs).filter (fun f => p f.kind) = [] := by
  refine List.filter_eq_nil_iff.2 fun f hf => ?_
  rcases kind_of_mem_badSupertypes hf with hk | hk
  · simp [hk, hp]
  · simp [hk, hu]

theorem filter_findings_nameConflict (c : Config) (h : Hierarchy) :
    ((h.findings c).filter fun f => f.kind = .nameConflict) = h.nameConflicts := by
  rw [filter_findings c h fun k => k = .nameConflict,
    filter_badSupertypes_eq_nil (p := fun k => k = .nameConflict) rfl rfl]
  simp

theorem filter_findings_illegalCharacter (c : Config) (h : Hierarchy) :
    ((h.findings c).filter fun f => f.kind = .illegalCharacter) = h.illegalCharacters := by
  rw [filter_findings c h fun k => k = .illegalCharacter,
    filter_badSupertypes_eq_nil (p := fun k => k = .illegalCharacter) rfl rfl]
  simp

theorem filter_findings_supertype (c : Config) (h : Hierarchy) :
    ((h.findings c).filter fun f =>
        f.kind = .unparseableSupertype ∨ f.kind = .undefinedSupertype)
      = badSupertypes h.supertypes := by
  rw [filter_findings c h fun k => k = .unparseableSupertype ∨ k = .undefinedSupertype,
    filter_badSupertypes_eq_self
      (p := fun k => k = .unparseableSupertype ∨ k = .undefinedSupertype) rfl rfl]
  simp

theorem filter_findings_circularDependency (c : Config) (h : Hierarchy) :
    ((h.findings c).filter fun f => f.kind = .circularDependency)
      = circularDependencies c (.ofHierarchy h) := by
  rw [filter_findings c h fun k => k = .circularDependency,
    filter_badSupertypes_eq_nil (p := fun k => k = .circularDependency) rfl rfl]
  simp

theorem filter_findings_not_circularDependency (c : Config) (h : Hierarchy) :
    ((h.findings c).filter fun f => f.kind ≠ .circularDependency)
      = h.nameConflicts ++ h.illegalCharacters ++ h.genericNames
        ++ badSupertypes h.supertypes := by
  rw [filter_findings c h fun k => k ≠ .circularDependency,
    filter_badSupertypes_eq_self (p := fun k => k ≠ .circularDependency) rfl rfl]
  simp

theorem isEnabled_of_mem_circularDependencies {c : Config} {g : Graph}
    (hf : f ∈ circularDependencies c g) : c.isEnabled f.kind = true := by
  rw [kind_of_mem_circularDependencies hf]
  unfold circularDependencies at hf
  split at hf
  · assumption
  · cases hf

end Hierarchy

theorem findings_eq {v : Value} {h : Hierarchy} (hv : Hierarchy.ofValue? v = some h) (c : Config) :
    findings c v = h.findings c := by
  rw [findings, hv]

/-- There are no findings but those of the checks. -/
theorem exists_fromCheck {c : Config} {v : Value} {f : Finding} (hf : f ∈ findings c v) :
    ∃ k, f.FromCheck k := by
  unfold findings at hf
  split at hf
  · simp only [Hierarchy.findings, List.mem_append, or_assoc] at hf
    rcases hf with hf | hf | hf | hf | hf
    · exact ⟨_, Hierarchy.fromCheck_of_mem_nameConflicts hf⟩
    · exact ⟨_, Hierarchy.fromCheck_of_mem_illegalCharacters hf⟩
    · exact ⟨_, Hierarchy.fromCheck_of_mem_genericNames hf⟩
    · exact (Hierarchy.fromCheck_of_mem_badSupertypes hf).elim (⟨_, ·⟩) (⟨_, ·⟩)
    · exact ⟨_, Hierarchy.fromCheck_of_mem_circularDependencies hf⟩
  · obtain rfl := List.mem_singleton.1 hf
    exact ⟨_, .invalidShape⟩

theorem diagnosticsOf_nameConflict {c : Config} (hc : c.isEnabled .nameConflict = true) {v : Value}
    {h : Hierarchy} (hv : Hierarchy.ofValue? v = some h) :
    diagnosticsOf c .nameConflict v = h.nameConflicts.map (Finding.diagnostic c) := by
  rw [diagnosticsOf, filter_validate c v fun k => k = .nameConflict, findings_eq hv,
    Hierarchy.filter_findings_nameConflict]
  exact filterMap_diagnose? fun f hf => by rwa [Hierarchy.kind_of_mem_nameConflicts hf]

theorem diagnosticsOf_illegalCharacter {c : Config} (hc : c.isEnabled .illegalCharacter = true)
    {v : Value} {h : Hierarchy} (hv : Hierarchy.ofValue? v = some h) :
    diagnosticsOf c .illegalCharacter v = h.illegalCharacters.map (Finding.diagnostic c) := by
  rw [diagnosticsOf, filter_validate c v fun k => k = .illegalCharacter, findings_eq hv,
    Hierarchy.filter_findings_illegalCharacter]
  exact filterMap_diagnose? fun f hf => by rwa [Hierarchy.kind_of_mem_illegalCharacters hf]

theorem exists_of_mem_diagnosticsOf_illegalCharacter {c : Config} {v : Value} {h : Hierarchy}
    (hv : Hierarchy.ofValue? v = some h) {d : Diagnostic}
    (hd : d ∈ diagnosticsOf c .illegalCharacter v) :
    ∃ f ∈ h.illegalCharacters, d = f.diagnostic c := by
  rw [diagnosticsOf, filter_validate c v fun k => k = .illegalCharacter, findings_eq hv,
    Hierarchy.filter_findings_illegalCharacter, filterMap_diagnose?_eq] at hd
  obtain ⟨f, hf, rfl⟩ := List.mem_map.1 hd
  exact ⟨f, List.mem_of_mem_filter hf, rfl⟩

theorem diagnosticsOf_circularDependency (c : Config) {v : Value} {h : Hierarchy}
    (hv : Hierarchy.ofValue? v = some h) :
    diagnosticsOf c .circularDependency v
      = (Hierarchy.circularDependencies c (.ofHierarchy h)).map (Finding.diagnostic c) := by
  rw [diagnosticsOf, filter_validate c v fun k => k = .circularDependency, findings_eq hv,
    Hierarchy.filter_findings_circularDependency]
  exact filterMap_diagnose? fun f hf => Hierarchy.isEnabled_of_mem_circularDependencies hf

end HierarchyLint
