import HierarchyLint.Proofs.Cli.Loading
import HierarchyLint.Proofs.Config.Disabled
import HierarchyLint.Yaml.Safe

/-!
# The check of the shape is always on

A configuration is the default one or comes from data, from a file, or from another one by the
options of a run (`Config.Obtainable`). None of these switches off the check of the shape: data that
name it are refused, and the options leave the list of checks as it is. So a value that is no
mapping never passes for a hierarchy (`rejects_of_not_mapping`).
-/

namespace HierarchyLint

/-- The configurations that can be had. -/
inductive Config.Obtainable : Config → Prop where
  | default : Obtainable {}
  | decoded {v : Value} {c : Config} : Config.decode v = .ok c → Obtainable c
  | loaded {lib : Yaml.Library} {t : FileTree} {path : Path} {c : Config} :
      t.loadConfig lib path = .ok c → Obtainable c
  | overridden {c : Config} (o : Cli.Options) : Obtainable c → Obtainable (o.override c)

variable {lib : Yaml.Library} {t : FileTree} {path : Path} {o : Cli.Options} {c : Config}
  {v : Value}

theorem FileTree.eq_default_or_decode_of_loadConfig (h : t.loadConfig lib path = .ok c) :
    c = {} ∨ ∃ v, t.load lib path = .ok v ∧ Config.decode v = .ok c := by
  unfold FileTree.loadConfig at h
  split at h
  · cases h
  · rename_i v hv
    split at h
    · cases h
      exact .inl rfl
    · exact .inr ⟨v, hv, mapError_eq_ok_iff.1 h⟩

theorem Config.Obtainable.invalidShape_not_mem (h : c.Obtainable) : .invalidShape ∉ c.disabled := by
  induction h with
  | default => exact List.not_mem_nil
  | decoded h => exact invalidShape_not_mem_disabled h
  | loaded h =>
    rcases FileTree.eq_default_or_decode_of_loadConfig h with rfl | ⟨v, -, h⟩
    · exact List.not_mem_nil
    · exact invalidShape_not_mem_disabled h
  | overridden o _ ih => exact ih

theorem Config.Obtainable.isEnabled_invalidShape (h : c.Obtainable) :
    c.isEnabled .invalidShape = true :=
  decide_eq_true h.invalidShape_not_mem

theorem Cli.obtainable_of_loadConfig (h : Cli.loadConfig lib t o = .ok c) : c.Obtainable := by
  unfold Cli.loadConfig at h
  split at h
  · cases h
    exact .overridden o .default
  · obtain ⟨base, hload, rfl⟩ := map_eq_ok_iff.1 h
    exact .overridden o (.loaded hload)

/-! ## Values of another shape -/

theorem Hierarchy.ofValue?_eq_none (hv : v.entries? = none) : Hierarchy.ofValue? v = none := by
  cases v with
  | map | hierarchy => cases hv
  | _ => rfl

theorem Config.severity_invalidShape (c : Config) : c.severity .invalidShape = .error := by
  unfold Config.severity
  split
  · rfl
  · rfl

def shapeDiagnostic : Diagnostic :=
  ⟨.invalidShape, .error, "The hierarchy definition should be an object.", []⟩

theorem validate_of_not_mapping (hc : c.isEnabled .invalidShape = true) (hv : v.entries? = none) :
    validate c v = [shapeDiagnostic] := by
  have hfindings : findings c v = [.invalidShape] := by
    rw [findings, Hierarchy.ofValue?_eq_none hv]
  have hdiagnose : Finding.invalidShape.diagnose? c = some shapeDiagnostic := by
    unfold Finding.diagnose? Finding.invalidShape
    rw [if_pos hc, c.severity_invalidShape]
    rfl
  rw [validate, hfindings, List.filterMap_cons_some hdiagnose, List.filterMap_nil]

/-- Whatever configuration a validation has, the check of the shape is on: a value that is no
mapping has one diagnostic, an error without arguments that says so, and a run that loads such a
value ends with status 1. -/
theorem rejects_of_not_mapping (hc : c.Obtainable) :
    c.isEnabled .invalidShape = true ∧
    ∀ v : Value, v.entries? = none →
      validate c v = [shapeDiagnostic] ∧
      ∀ (lib : Yaml.Library) (t : FileTree) (o : Cli.Options), Cli.loadConfig lib t o = .ok c →
        t.loadHierarchy lib (Path.ofText o.file) o.key = .ok v →
        (Cli.lint lib t o).exit = 1 := by
  have hon := hc.isEnabled_invalidShape
  refine ⟨hon, fun v hv => ⟨validate_of_not_mapping hon hv, fun lib t o hconfig hload => ?_⟩⟩
  rw [Cli.lint, hconfig]
  dsimp only
  rw [hload]
  refine Cli.exit_lintValue_eq_one_iff.2 ⟨shapeDiagnostic, ?_, rfl⟩
  rw [validate_of_not_mapping hon hv]
  exact List.mem_singleton.2 rfl

/-- A list where a hierarchy should be, and a configuration that switches two checks off. -/
def listTree : FileTree :=
  .ofList [("h.yaml", "- a\n".toUTF8.toList),
    ("c.yaml", "disabled_checks: [name_conflict, circular_dependency]\n".toUTF8.toList)]

def listOptions : Cli.Options :=
  { file := "h.yaml", config := some "c.yaml", cycles := some .perMember, strict := true }

theorem rejects_listTree :
    ∃ v, v.entries? = none ∧
      Cli.Loads .safe listTree listOptions { disabled := [.nameConflict, .circularDependency] } v ∧
      validate (listOptions.override { disabled := [.nameConflict, .circularDependency] }) v
        = [shapeDiagnostic] ∧
      (Cli.lint .safe listTree listOptions).exit = 1 := by
  obtain ⟨v, hv⟩ : ∃ v, Cli.Loads .safe listTree listOptions
      { disabled := [.nameConflict, .circularDependency] } v :=
    Cli.exists_loads (by decide +kernel) (by decide +kernel)
  have hlist : ((listTree.loadHierarchy .safe (Path.ofText listOptions.file)
      listOptions.key).toOption.bind Value.entries?).isNone = true := by decide +kernel
  rw [hv.hierarchy] at hlist
  have hentries : v.entries? = none := Option.isNone_iff_eq_none.1 hlist
  have hconfig : Cli.loadConfig .safe listTree listOptions
      = .ok (listOptions.override { disabled := [.nameConflict, .circularDependency] }) := by
    rw [Cli.loadConfig_eq, hv.config]
    rfl
  obtain ⟨-, hreject⟩ := rejects_of_not_mapping (Cli.obtainable_of_loadConfig hconfig)
  obtain ⟨hvalidate, hexit⟩ := hreject v hentries
  exact ⟨v, hentries, hv, hvalidate, hexit .safe listTree listOptions hconfig hv.hierarchy⟩

end HierarchyLint
