import HierarchyLint.Cli.Lint
import HierarchyLint.Proofs.Answer
import HierarchyLint.Proofs.Validation.Sessions

/-!
# Runs that load

`Loads lib t o c v` says that the files of a run can be loaded: by the library they hold the
configuration `c`, to which the options have not been applied yet, and the value `v`. The command
then validates the value, and its outcome is a function of the diagnostics alone.
-/

namespace HierarchyLint.Cli

variable {lib : Yaml.Library} {t : FileTree} {o : Options} {c : Config} {v : Value}

/-- The configuration that the options name, without their changes. -/
def Options.baseConfig (lib : Yaml.Library) (t : FileTree) (o : Options) :
    Except ConfigError Config :=
  match o.config with
  | none => .ok {}
  | some path => t.loadConfig lib (Path.ofText path)

theorem loadConfig_eq (lib : Yaml.Library) (t : FileTree) (o : Options) :
    loadConfig lib t o = (o.baseConfig lib t).map o.override := by
  unfold loadConfig Options.baseConfig
  cases o.config with
  | none => rfl
  | some path => rfl

structure Loads (lib : Yaml.Library) (t : FileTree) (o : Options) (c : Config) (v : Value) :
    Prop where
  config : o.baseConfig lib t = .ok c
  hierarchy : t.loadHierarchy lib (Path.ofText o.file) o.key = .ok v

/-- What is loaded does not depend on how cycles are reported, on what counts as an error, and on
what is printed. -/
theorem Loads.withFlags (h : Loads lib t o c v) (cycles : Option CycleReporting)
    (strict quiet verbose : Bool) : Loads lib t { o with cycles, strict, quiet, verbose } c v :=
  ⟨h.config, h.hierarchy⟩

theorem exists_loads (hc : (o.baseConfig lib t).toOption = some c)
    (hv : (t.loadHierarchy lib (Path.ofText o.file) o.key).toOption.isSome = true) :
    ∃ v, Loads lib t o c v := by
  obtain ⟨v, hv⟩ := Option.isSome_iff_exists.1 hv
  exact ⟨v, eq_ok_of_toOption hc, eq_ok_of_toOption hv⟩

theorem Loads.lint_eq (h : Loads lib t o c v) : lint lib t o = lintValue o (o.override c) v := by
  rw [lint, loadConfig_eq, h.config, Except.map, h.hierarchy]

/-! ## After loading -/

theorem lintValue_eq (o : Options) (c : Config) (v : Value) :
    lintValue o c v = conclude o ⟨validate c v⟩ := by
  rw [lintValue, Validator.validate_eq, Sink.foldl_receive_collector, List.nil_append]

theorem exit_conclude (o : Options) (found : Collector) :
    (conclude o found).exit = if found.errors.isEmpty then 0 else 1 := by
  unfold conclude
  split
  · rename_i hnone
    have herrors : found.errors = [] := by
      rw [Collector.errors, Collector.ofSeverity, List.isEmpty_iff.1 hnone, List.filter_nil]
    rw [herrors]
    rfl
  · rfl

theorem exit_lintValue (o : Options) (c : Config) (v : Value) :
    (lintValue o c v).exit = 0 ∨ (lintValue o c v).exit = 1 := by
  rw [lintValue_eq, exit_conclude]
  split
  · exact .inl rfl
  · exact .inr rfl

theorem exit_lintValue_eq_one_iff :
    (lintValue o c v).exit = 1 ↔ ∃ d ∈ validate c v, d.severity = .error := by
  rw [lintValue_eq, exit_conclude]
  constructor
  · intro hexit
    split at hexit
    · cases hexit
    · rename_i herrors
      obtain ⟨d, hd⟩ := List.exists_mem_of_ne_nil _ (mt List.isEmpty_iff.2 herrors)
      obtain ⟨hd, hs⟩ := List.mem_filter.1 hd
      exact ⟨d, hd, of_decide_eq_true hs⟩
  · rintro ⟨d, hd, hs⟩
    rw [if_neg]
    intro hnone
    have herror : d ∈ Collector.errors ⟨validate c v⟩ := List.mem_filter.2 ⟨hd, decide_eq_true hs⟩
    rw [List.isEmpty_iff.1 hnone] at herror
    cases herror

end HierarchyLint.Cli
