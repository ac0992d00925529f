import HierarchyLint.Proofs.Validation.Kinds

/-!
# Options as filters

The checks of a hierarchy do not look at the options, but for the one that searches for cycles: it
does not search when its findings would not be reported. What it leaves out is what is left out
anyway, so the options act on the diagnostics of a validation with every check switched on and
warnings left as they are (`validate_eq_map_filter`).
-/

namespace HierarchyLint

/-- The same cycles are reported, no check is switched off, and warnings stay warnings. -/
def Config.unfiltered (c : Config) : Config := { cycleReporting := c.cycleReporting }

/-- The diagnostic, as an error if warnings count as errors. -/
def Diagnostic.promoted (c : Config) (d : Diagnostic) : Diagnostic :=
  if c.warningsAsErrors then { d with severity := .error } else d

variable {c : Config} {f : Finding} {k : DiagnosticKind}

theorem Config.isEnabled_unfiltered : c.unfiltered.isEnabled k = true := rfl

theorem Finding.promoted_diagnostic : (f.diagnostic c.unfiltered).promoted c = f.diagnostic c := by
  unfold Diagnostic.promoted Finding.diagnostic Config.severity
  split
  · rfl
  · rfl

theorem Diagnostic.kind_promoted (d : Diagnostic) : (d.promoted c).kind = d.kind := by
  unfold Diagnostic.promoted
  split
  · rfl
  · rfl

/-- Cycles that nobody searched for would not have been reported. -/
theorem Hierarchy.filter_circularDependencies (c : Config) (g : Graph) :
    (circularDependencies c.unfiltered g).filter (fun f => c.isEnabled f.kind)
      = (circularDependencies c g).filter fun f => c.isEnabled f.kind := by
  by_cases hk : c.isEnabled .circularDependency
  · rw [circularDependencies, circularDependencies, if_pos hk, if_pos Config.isEnabled_unfiltered]
    rfl
  · rw [filter_eq_of_kind fun _ => kind_of_mem_circularDependencies,
      filter_eq_of_kind fun _ => kind_of_mem_circularDependencies, if_neg hk, if_neg hk]

/-- The findings that are reported do not depend on the checks that are switched off. -/
theorem filter_isEnabled_findings (c : Config) (v : Value) :
    (findings c.unfiltered v).filter (fun f => c.isEnabled f.kind)
      = (findings c v).filter fun f => c.isEnabled f.kind := by
  unfold findings
  split
  · simp only [Hierarchy.findings, List.filter_append, Hierarchy.filter_circularDependencies]
  · rfl

theorem filter_validate_unfiltered (c : Config) (v : Value) :
    (validate c.unfiltered v).filter (fun d => c.isEnabled d.kind)
      = ((findings c v).filter fun f => c.isEnabled f.kind).map
          (Finding.diagnostic c.unfiltered) := by
  have hall : validate c.unfiltered v
      = (findings c.unfiltered v).map (Finding.diagnostic c.unfiltered) :=
    filterMap_diagnose? fun _ _ => Config.isEnabled_unfiltered
  rw [hall, List.filter_map, ← filter_isEnabled_findings]
  rfl

theorem validate_eq_promoted (c : Config) (v : Value) :
    validate c v
      = ((validate c.unfiltered v).filter fun d => c.isEnabled d.kind).map
          (Diagnostic.promoted c) := by
  rw [filter_validate_unfiltered, List.map_map, validate, filterMap_diagnose?_eq]
  exact List.map_congr_left fun f _ => Finding.promoted_diagnostic.symm

/-- The options act on the diagnostics of the unfiltered validation: those of the checks that are
switched off go, the others stay in their order and may become errors. So the diagnostics of one
kind are the same whichever other checks are switched off. -/
theorem validate_eq_map_filter (c : Config) (v : Value) :
    validate c v
        = ((validate c.unfiltered v).filter fun d => c.isEnabled d.kind).map
            (Diagnostic.promoted c) ∧
      ∀ k, diagnosticsOf c k v
        = if c.isEnabled k then (diagnosticsOf c.unfiltered k v).map (Diagnostic.promoted c)
          else [] := by
  refine ⟨validate_eq_promoted c v, fun k => ?_⟩
  rw [diagnosticsOf, validate_eq_promoted, List.filter_map, List.filter_filter]
  simp only [Function.comp_def, Diagnostic.kind_promoted]
  split
  · rename_i hk
    refine congrArg _ (List.filter_congr fun d _ => ?_)
    by_cases hd : d.kind = k
    · simp [hd, hk]
    · simp [hd]
  · rename_i hk
    rw [List.map_eq_nil_iff, List.filter_eq_nil_iff]
    intro d _ hd
    simp only [Bool.and_eq_true, decide_eq_true_eq] at hd
    exact hk (hd.1 ▸ hd.2)

end HierarchyLint
