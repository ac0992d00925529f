import HierarchyLint.Proofs.Graph.Reports
import HierarchyLint.Proofs.Validation.Kinds

/-!
# Kinds and severities of what is reported

Whether problems of a kind are reported depends on the check alone that looks for them: it has to
be switched on, and then it finds one or none whatever else the configuration says. For most checks
nothing is to be shown, since they do not see the configuration; the two ways of reporting cycles
both report one exactly if there is one (`exists_finding_iff`). The severity of a diagnostic is
that of its kind, unless warnings count as errors.
-/

namespace HierarchyLint

variable {c c' : Config} {v : Value} {k : DiagnosticKind}

def Reports (c : Config) (v : Value) (k : DiagnosticKind) : Prop := ∃ d ∈ validate c v, d.kind = k

theorem reports_iff_exists_finding :
    Reports c v k ↔ c.isEnabled k = true ∧ ∃ f ∈ findings c v, f.kind = k := by
  unfold Reports
  rw [validate, filterMap_diagnose?_eq]
  constructor
  · rintro ⟨d, hd, rfl⟩
    obtain ⟨f, hf, rfl⟩ := List.mem_map.1 hd
    obtain ⟨hf, hon⟩ := List.mem_filter.1 hf
    exact ⟨hon, f, hf, rfl⟩
  · rintro ⟨hon, f, hf, rfl⟩
    exact ⟨f.diagnostic c, List.mem_map_of_mem (List.mem_filter.2 ⟨hf, hon⟩), rfl⟩

/-! ## Cycles -/

namespace Hierarchy

theorem circularDependencies_ne_nil_iff (hc : c.isEnabled .circularDependency = true) {g : Graph} :
    circularDependencies c g ≠ [] ↔ ¬ g.Acyclic := by
  rw [circularDependencies, if_pos hc, ne_eq, List.map_eq_nil_iff, Graph.cycles_eq_nil_iff]

/-- Looking for cycles finds one whichever of them are to be reported. -/
theorem exists_mem_circularDependencies_iff (hc : c.isEnabled k = true)
    (hc' : c'.isEnabled k = true) (g : Graph) :
    (∃ f ∈ circularDependencies c g, f.kind = k) ↔ ∃ f ∈ circularDependencies c' g, f.kind = k := by
  by_cases hk : k = .circularDependency
  · subst hk
    have hnonempty : ∀ {c : Config}, c.isEnabled .circularDependency = true →
        ((∃ f ∈ circularDependencies c g, f.kind = .circularDependency) ↔ ¬ g.Acyclic) := by
      intro c hc
      rw [← circularDependencies_ne_nil_iff hc]
      constructor
      · rintro ⟨f, hf, -⟩
        exact List.ne_nil_of_mem hf
      · intro hne
        obtain ⟨f, hf⟩ := List.exists_mem_of_ne_nil _ hne
        exact ⟨f, hf, kind_of_mem_circularDependencies hf⟩
    rw [hnonempty hc, hnonempty hc']
  · have hnone : ∀ c : Config, ¬ ∃ f ∈ circularDependencies c g, f.kind = k := by
      rintro c ⟨f, hf, rfl⟩
      exact hk (kind_of_mem_circularDependencies hf)
    exact iff_of_false (hnone c) (hnone c')

end Hierarchy

/-! ## Kinds -/

theorem exists_finding_iff (hc : c.isEnabled k = true) (hc' : c'.isEnabled k = true) (v : Value) :
    (∃ f ∈ findings c v, f.kind = k) ↔ ∃ f ∈ findings c' v, f.kind = k := by
  unfold findings
  cases Hierarchy.ofValue? v with
  | none => exact Iff.rfl
  | some h =>
    simp only [Hierarchy.findings, List.mem_append, or_and_right, exists_or]
    exact or_congr_right (Hierarchy.exists_mem_circularDependencies_iff hc hc' _)

theorem reports_iff : Reports c v k ↔ c.isEnabled k = true ∧ Reports {} v k := by
  have hdefault : (({} : Config).isEnabled k) = true := rfl
  rw [reports_iff_exists_finding, reports_iff_exists_finding, and_iff_right hdefault]
  exact and_congr_right fun hc => exists_finding_iff hc hdefault v

/-! ## Severities -/

theorem severity_of_mem_validate {d : Diagnostic} (hd : d ∈ validate c v) :
    d.severity = c.severity d.kind := by
  rw [validate, filterMap_diagnose?_eq] at hd
  obtain ⟨f, -, rfl⟩ := List.mem_map.1 hd
  rfl

theorem Config.severity_eq_error_iff :
    c.severity k = .error ↔ c.warningsAsErrors = true ∨ k ≠ .genericName := by
  unfold Config.severity
  split
  · rename_i hw
    exact iff_of_true rfl (.inl hw)
  · rename_i hw
    cases k <;> simp [DiagnosticKind.severity, hw]

/-- An error is reported if there is a diagnostic that is no mere warning. -/
theorem exists_error_iff :
    (∃ d ∈ validate c v, d.severity = .error) ↔
      ∃ d ∈ validate {} v, c.isEnabled d.kind = true ∧
        (c.warningsAsErrors = true ∨ d.kind ≠ .genericName) := by
  calc (∃ d ∈ validate c v, d.severity = .error)
    _ ↔ ∃ k, Reports c v k ∧ c.severity k = .error := by
      constructor
      · rintro ⟨d, hd, hs⟩
        exact ⟨d.kind, ⟨d, hd, rfl⟩, severity_of_mem_validate hd ▸ hs⟩
      · rintro ⟨_, ⟨d, hd, rfl⟩, hs⟩
        exact ⟨d, hd, (severity_of_mem_validate hd).trans hs⟩
    _ ↔ ∃ k, (c.isEnabled k = true ∧ Reports {} v k) ∧
          (c.warningsAsErrors = true ∨ k ≠ .genericName) := by
      simp only [reports_iff (c := c), Config.severity_eq_error_iff]
    _ ↔ _ := by
      constructor
      · rintro ⟨_, ⟨hon, d, hd, rfl⟩, hs⟩
        exact ⟨d, hd, hon, hs⟩
      · rintro ⟨d, hd, hon, hs⟩
        exact ⟨d.kind, ⟨hon, d, hd, rfl⟩, hs⟩

end HierarchyLint
