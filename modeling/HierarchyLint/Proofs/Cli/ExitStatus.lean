import HierarchyLint.Proofs.Cli.Loading
import HierarchyLint.Proofs.Validation.Severities
import HierarchyLint.Yaml.Safe

/-!
# The exit status

Once its files are loaded, a run ends with status 1 if it reports an error and with 0 otherwise.
An error is a problem of a kind whose check is switched on, and that is no warning or may not be
one: so the status follows from the kinds that the default configuration reports
(`exit_lint_eq_one_iff`), and how cycles are reported or what is printed makes no difference.
-/

namespace HierarchyLint.Cli

variable {lib : Yaml.Library} {t : FileTree} {o : Options} {c : Config} {v : Value}

theorem exit_lint (h : Loads lib t o c v) : (lint lib t o).exit = 0 ∨ (lint lib t o).exit = 1 := by
  rw [h.lint_eq]
  exact exit_lintValue o _ v

theorem exit_lint_eq_one_iff (h : Loads lib t o c v) :
    (lint lib t o).exit = 1 ↔ ∃ d ∈ validate {} v, c.isEnabled d.kind = true ∧
      (o.strict = true ∨ c.warningsAsErrors = true ∨ d.kind ≠ .genericName) := by
  rw [h.lint_eq, exit_lintValue_eq_one_iff, exists_error_iff]
  have hon (k : DiagnosticKind) : (o.override c).isEnabled k = c.isEnabled k := rfl
  have hstrict : (o.override c).warningsAsErrors = true ↔
      o.strict = true ∨ c.warningsAsErrors = true := Bool.or_eq_true_iff
  simp only [hon, hstrict, or_assoc]

theorem exit_eq_of_iff {o' : Options} {c' : Config} {v' : Value} (h : Loads lib t o c v)
    (h' : Loads lib t o' c' v') (hiff : (lint lib t o').exit = 1 ↔ (lint lib t o).exit = 1) :
    (lint lib t o').exit = (lint lib t o).exit := by
  have hexit := exit_lint h
  have hexit' := exit_lint h'
  omega

/-- Once the files are loaded, the status is 1 if an error is reported, and else 0. It is the same
however cycles are reported and whatever is printed. If warnings count as errors it tells whether
anything is found by a check that is switched on, and otherwise whether anything but a short name
is; so `--strict` can only raise it. The options change no other part of the configuration. -/
theorem exit_tells_of_errors (h : Loads lib t o c v) :
    ((lint lib t o).exit = 0 ∨ (lint lib t o).exit = 1) ∧
    ((lint lib t o).exit = 1 ↔ ∃ d ∈ validate (o.override c) v, d.severity = .error) ∧
    (∀ cycles quiet, (lint lib t { o with cycles, quiet }).exit = (lint lib t o).exit) ∧
    (o.strict = true →
      ((lint lib t o).exit = 1 ↔ ∃ d ∈ validate {} v, c.isEnabled d.kind = true)) ∧
    (o.strict = false → c.warningsAsErrors = false →
      ((lint lib t o).exit = 1 ↔
        ∃ d ∈ validate {} v, c.isEnabled d.kind = true ∧ d.kind ≠ .genericName)) ∧
    (lint lib t { o with strict := false }).exit ≤ (lint lib t { o with strict := true }).exit ∧
    (o.override c).disabled = c.disabled ∧
    (∀ mode, o.cycles = some mode → (o.override c).cycleReporting = mode) ∧
    (o.cycles = none → (o.override c).cycleReporting = c.cycleReporting) ∧
    (o.override c).warningsAsErrors = (o.strict || c.warningsAsErrors) := by
  refine ⟨exit_lint h, ?_, fun cycles quiet => ?_, fun hs => ?_, fun hs hw => ?_, ?_, rfl, ?_, ?_,
    rfl⟩
  · rw [h.lint_eq, exit_lintValue_eq_one_iff]
  · have h' := h.withFlags cycles o.strict quiet o.verbose
    exact exit_eq_of_iff h h' ((exit_lint_eq_one_iff h').trans (exit_lint_eq_one_iff h).symm)
  · rw [exit_lint_eq_one_iff h]
    simp only [hs, true_or, and_true]
  · rw [exit_lint_eq_one_iff h]
    simp only [hs, hw, Bool.false_eq_true, false_or]
  · have hlax := h.withFlags o.cycles false o.quiet o.verbose
    have hstrict := h.withFlags o.cycles true o.quiet o.verbose
    have hraise : (lint lib t { o with strict := false }).exit = 1 →
        (lint lib t { o with strict := true }).exit = 1 := by
      rw [exit_lint_eq_one_iff hlax, exit_lint_eq_one_iff hstrict]
      rintro ⟨d, hd, hon, -⟩
      exact ⟨d, hd, hon, .inl rfl⟩
    have hexit := exit_lint hlax
    have hexit' := exit_lint hstrict
    omega
  · intro mode hmode
    rw [Options.override, hmode]
    rfl
  · intro hnone
    rw [Options.override, hnone]
    rfl

/-- A hierarchy with a short name and a reference that leads nowhere, and a configuration that does
not look at references. -/
def shortNameTree : FileTree :=
  .ofList [("h.yaml", "A:\n  fulfills: [Bc]\n".toUTF8.toList),
    ("c.yaml", "disabled_checks: [undefined_supertype]\n".toUTF8.toList)]

def shortNameOptions : Options := { file := "h.yaml", config := some "c.yaml" }

/-- The warning that is left is an error only if warnings count as errors. -/
theorem exit_shortNameTree :
    ∃ v, Loads .safe shortNameTree shortNameOptions { disabled := [.undefinedSupertype] } v ∧
      (lint .safe shortNameTree shortNameOptions).exit = 0 ∧
      (lint .safe shortNameTree { shortNameOptions with strict := true }).exit = 1 ∧
      ∀ cycles quiet,
        (lint .safe shortNameTree { shortNameOptions with cycles, quiet }).exit = 0 := by
  obtain ⟨v, hv⟩ : ∃ v, Loads .safe shortNameTree shortNameOptions
      { disabled := [.undefinedSupertype] } v :=
    exists_loads (by decide +kernel) (by decide +kernel)
  obtain ⟨-, -, hsame, -⟩ := exit_tells_of_errors hv
  have hlax : (lint .safe shortNameTree shortNameOptions).exit = 0 := by decide +kernel
  have hstrict : (lint .safe shortNameTree { shortNameOptions with strict := true }).exit = 1 := by
    decide +kernel
  exact ⟨v, hv, hlax, hstrict, fun cycles quiet => (hsame cycles quiet).trans hlax⟩

end HierarchyLint.Cli
