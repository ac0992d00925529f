import HierarchyLint.Proofs.Cli.Loading
import HierarchyLint.Proofs.File.Path
import HierarchyLint.Proofs.Text.Utf8
import HierarchyLint.Yaml.Safe

/-!
# What comes of what the files hold

The bytes of a file are text in UTF-8 or not, and by the library the text is a document or not. From
this, and from what the documents say, follow the configuration (`ConfigIs`) and the hierarchy
(`HierarchyIs`) of a run, or the message about the first thing that cannot be loaded (`Fails`), with
which the run ends. The fault of bytes that are no text is no such failure: it stops the command
itself, unless the library finds a mistake in front of them first. So does an error that the library
does not count among its own (`Breaks`).
-/

namespace HierarchyLint.Cli

open Text.Utf8 (Encodes decode decode_eq_ok_iff unifyLineEnds)

/-! ## Documents -/

/-- The file at the path is a document with the value. -/
def Holds (lib : Yaml.Library) (t : FileTree) (path : String) (v : Value) : Prop :=
  ∃ bytes cs, t.find? path = some (.file bytes) ∧ Encodes bytes cs ∧
    lib.read (unifyLineEnds cs) = .ok v

/-- The library finds a mistake in the file at the path. -/
inductive IsMalformed (lib : Yaml.Library) (t : FileTree) (path : String) : Prop where
  | text {bytes : List UInt8} {cs : List Char} : t.find? path = some (.file bytes) →
      Encodes bytes cs → lib.read (unifyLineEnds cs) = .error .malformed → IsMalformed lib t path
  | bytes {bytes : List UInt8} : t.find? path = some (.file bytes) →
      (¬ ∃ cs, Encodes bytes cs) → lib.undecodable? bytes = none → IsMalformed lib t path

/-- The reading of the file at the path ends with an error that is none of the library's own. -/
inductive IsUnreadable (lib : Yaml.Library) (t : FileTree) (path : String) : LoadError → Prop where
  | notText {bytes : List UInt8} {f : Text.Utf8.Fault} : t.find? path = some (.file bytes) →
      (¬ ∃ cs, Encodes bytes cs) → lib.undecodable? bytes = some f →
      IsUnreadable lib t path (.notText f)
  | valueError {bytes : List UInt8} {cs : List Char} {message : String} :
      t.find? path = some (.file bytes) → Encodes bytes cs →
      lib.read (unifyLineEnds cs) = .error (.valueError message) →
      IsUnreadable lib t path (.valueError message)

variable {lib : Yaml.Library} {t : FileTree} {path : String} {v : Value} {e : LoadError}
  {bytes : List UInt8}

theorem load_eq_of_text {cs : List Char} (hfile : t.find? path = some (.file bytes))
    (htext : Encodes bytes cs) :
    t.load lib (Path.ofText path)
      = (lib.read (unifyLineEnds cs)).mapError (FileTree.readError (Path.ofText path)) := by
  unfold FileTree.load
  rw [FileTree.find?_text hfile]
  dsimp only
  rw [decode_eq_ok_iff.2 htext]

theorem load_eq_of_bytes (hfile : t.find? path = some (.file bytes))
    (hbytes : ¬ ∃ cs, Encodes bytes cs) :
    t.load lib (Path.ofText path) = match lib.undecodable? bytes with
      | some f => .error (.notText f)
      | none => .error (.malformed (Path.ofText path).text) := by
  unfold FileTree.load
  rw [FileTree.find?_text hfile]
  dsimp only
  cases hdecode : decode bytes with
  | error f => rfl
  | ok cs => exact absurd ⟨cs, decode_eq_ok_iff.1 hdecode⟩ hbytes

theorem Holds.load_eq (h : Holds lib t path v) : t.load lib (Path.ofText path) = .ok v := by
  obtain ⟨bytes, cs, hfile, htext, hread⟩ := h
  rw [load_eq_of_text hfile htext, hread, mapError_ok]

theorem IsMalformed.load_eq (h : IsMalformed lib t path) :
    t.load lib (Path.ofText path) = .error (.malformed (Path.ofText path).text) := by
  cases h with
  | text hfile htext hread =>
    rw [load_eq_of_text hfile htext, hread, mapError_error]
    rfl
  | bytes hfile hbytes hnone => rw [load_eq_of_bytes hfile hbytes, hnone]

theorem IsUnreadable.load_eq (h : IsUnreadable lib t path e) :
    t.load lib (Path.ofText path) = .error e := by
  cases h with
  | notText hfile hbytes hfault => rw [load_eq_of_bytes hfile hbytes, hfault]
  | valueError hfile htext hread =>
    rw [load_eq_of_text hfile htext, hread, mapError_error]
    rfl

theorem IsUnreadable.loadFailure_eq (h : IsUnreadable lib t path e) :
    loadFailure e = { exit := 1, escaped := some e } := by
  cases h with
  | notText | valueError => rfl

inductive ConfigIs (lib : Yaml.Library) (t : FileTree) (o : Options) : Config → Prop where
  | default : o.config = none → ConfigIs lib t o {}
  | blank {path : String} {v : Value} : o.config = some path → Holds lib t path v →
      v.isBlank = true → ConfigIs lib t o {}
  | data {path : String} {v : Value} {c : Config} : o.config = some path → Holds lib t path v →
      v.isBlank = false → Config.decode v = .ok c → ConfigIs lib t o c

/-- The message about the first thing that cannot be loaded. -/
inductive Fails (lib : Yaml.Library) (t : FileTree) (o : Options) : String → Prop where
  | malformedConfig {path : String} : o.config = some path → IsMalformed lib t path →
      Fails lib t o ("Failed to load from YAML file: " ++ (Path.ofText path).text)
  | invalidConfig {path : String} {v : Value} {errors : List SchemaError} : o.config = some path →
      Holds lib t path v → v.isBlank = false → Config.decode v = .error errors →
      Fails lib t o (ConfigError.invalid (Path.ofText path).text errors).message
  | malformed {c : Config} : ConfigIs lib t o c → IsMalformed lib t o.file →
      Fails lib t o ("Failed to load from YAML file: " ++ (Path.ofText o.file).text)
  | missingKey {c : Config} {key : String} {v : Value} : ConfigIs lib t o c → o.key = some key →
      Holds lib t o.file v → FileTree.keyValue? key v = none →
      Fails lib t o (LoadError.missingKey key (Path.ofText o.file).text).message

/-- The error of the first file that is read and cannot be. -/
inductive Breaks (lib : Yaml.Library) (t : FileTree) (o : Options) : LoadError → Prop where
  | config {path : String} {e : LoadError} : o.config = some path → IsUnreadable lib t path e →
      Breaks lib t o e
  | hierarchy {c : Config} {e : LoadError} : ConfigIs lib t o c → IsUnreadable lib t o.file e →
      Breaks lib t o e

variable {o : Options} {c : Config} {m : String}

theorem Holds.baseConfig_eq (hv : Holds lib t path v) (hconfig : o.config = some path) :
    o.baseConfig lib t = if v.isBlank then .ok {}
      else (Config.decode v).mapError (.invalid (Path.ofText path).text) := by
  rw [Options.baseConfig, hconfig]
  dsimp only
  rw [FileTree.loadConfig, hv.load_eq]

theorem ConfigIs.baseConfig_eq (h : ConfigIs lib t o c) : o.baseConfig lib t = .ok c := by
  cases h with
  | default hnone => rw [Options.baseConfig, hnone]
  | blank hconfig hv hblank => rw [hv.baseConfig_eq hconfig, if_pos hblank]
  | data hconfig hv hblank hdecode =>
    rw [hv.baseConfig_eq hconfig, if_neg (Bool.eq_false_iff.1 hblank), hdecode, mapError_ok]

theorem ConfigIs.loadConfig_ok (h : ConfigIs lib t o c) :
    loadConfig lib t o = .ok (o.override c) := by
  rw [loadConfig_eq, h.baseConfig_eq]
  rfl

/-! ## Runs -/

theorem lint_of_configError {e : ConfigError} (h : o.baseConfig lib t = .error e) :
    lint lib t o = configFailure e := by
  rw [lint, loadConfig_eq, h]
  rfl

theorem lint_of_loadError (hc : ConfigIs lib t o c)
    (h : t.loadHierarchy lib (Path.ofText o.file) o.key = .error e) :
    lint lib t o = loadFailure e := by
  rw [lint, hc.loadConfig_ok]
  dsimp only
  rw [h]

theorem baseConfig_of_load (hconfig : o.config = some path)
    (h : t.load lib (Path.ofText path) = .error e) : o.baseConfig lib t = .error (.load e) := by
  rw [Options.baseConfig, hconfig]
  dsimp only
  rw [FileTree.loadConfig, h]

theorem loadHierarchy_of_load (h : t.load lib (Path.ofText path) = .error e) (key : Option String) :
    t.loadHierarchy lib (Path.ofText path) key = .error e := by
  cases key with
  | none => exact h
  | some key => rw [FileTree.loadHierarchy, h]; rfl

theorem Fails.lint_eq (h : Fails lib t o m) : lint lib t o = failWith m := by
  cases h with
  | malformedConfig hconfig hbad =>
    exact lint_of_configError (baseConfig_of_load hconfig hbad.load_eq)
  | invalidConfig hconfig hv hblank hdecode =>
    refine lint_of_configError (e := .invalid _ _) ?_
    rw [hv.baseConfig_eq hconfig, if_neg (Bool.eq_false_iff.1 hblank), hdecode, mapError_error]
  | malformed hc hbad => exact lint_of_loadError hc (loadHierarchy_of_load hbad.load_eq o.key)
  | missingKey hc hkey hv hnone =>
    refine lint_of_loadError (e := .missingKey _ _) hc ?_
    rw [hkey, FileTree.loadHierarchy, hv.load_eq]
    simp only [bind, Except.bind, hnone]

theorem Breaks.lint_eq (h : Breaks lib t o e) :
    lint lib t o = { exit := 1, escaped := some e } := by
  cases h with
  | config hconfig hbad =>
    rw [lint_of_configError (baseConfig_of_load hconfig hbad.load_eq)]
    exact hbad.loadFailure_eq
  | hierarchy hc hbad =>
    rw [lint_of_loadError hc (loadHierarchy_of_load hbad.load_eq o.key)]
    exact hbad.loadFailure_eq

/-! ## All runs -/

end HierarchyLint.Cli
