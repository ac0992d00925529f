import HierarchyLint.Proofs.Text.Template
import HierarchyLint.Proofs.Validation.Kinds

/-!
# Messages

Each check has a template of its own, and it fills it with as many arguments as the template has
slots, whatever stands in the hierarchy. So the message of every diagnostic can be written. A log
writes the same one: it would treat a mapping on its own in another way, but an argument that is on
its own is a name.
-/

namespace HierarchyLint

/-- The template has a slot for each argument, and an argument on its own is no mapping. -/
structure Diagnostic.Writable (d : Diagnostic) : Prop where
  slots : Text.Template.slots? d.template = some d.args.length
  single : ∀ arg, d.args = [arg] → arg.entries? = none

namespace Diagnostic.Writable

variable {d : Diagnostic} (hd : d.Writable)
include hd

theorem exists_message : ∃ text, d.message = .ok text := by
  unfold message
  split
  · exact ⟨_, rfl⟩
  · rw [Text.Template.exists_fill_iff, List.length_map]
    exact hd.slots

theorem message_ofDiagnostic : (LogRecord.ofDiagnostic d).message = d.message := by
  unfold LogRecord.message LogRecord.ofDiagnostic message
  dsimp only
  split
  · rfl
  · split
    · rename_i hargs _
      obtain ⟨arg, harg, hentries⟩ := List.map_eq_singleton_iff.1 hargs
      rw [hd.single arg harg] at hentries
      cases hentries
    · rfl

end Diagnostic.Writable

/-! ## Templates of the checks -/

namespace Finding.FromCheck

variable {f : Finding} {k : DiagnosticKind} (hf : f.FromCheck k)
include hf

/-- The template and the number of the arguments are the check's own. -/
theorem slots_template : Text.Template.slots? f.template = some f.args.length := by
  cases hf <;>
    simp only [Finding.invalidShape, Finding.nameConflict, Finding.illegalCharacter,
      Finding.genericName, Finding.unparseableSupertype, Finding.undefinedSupertype,
      Finding.circularDependency, List.length_cons, List.length_nil] <;>
    decide +kernel

theorem entries?_single {arg : Value} (harg : f.args = [arg]) : arg.entries? = none := by
  cases hf with
  | genericName name => cases harg; rfl
  | _ => cases harg

theorem writable (c : Config) : (f.diagnostic c).Writable :=
  ⟨hf.slots_template, fun _ harg => hf.entries?_single harg⟩

end Finding.FromCheck

theorem writable_of_mem_validate {c : Config} {v : Value} {d : Diagnostic} (hd : d ∈ validate c v) :
    d.Writable := by
  obtain ⟨f, hf, hfd⟩ := List.mem_filterMap.1 hd
  obtain ⟨k, hk⟩ := exists_fromCheck hf
  rw [Finding.diagnose?_eq, Option.ite_none_right_eq_some] at hfd
  obtain ⟨-, hfd⟩ := hfd
  exact Option.some.inj hfd ▸ hk.writable c

end HierarchyLint
