import HierarchyLint.Diagnostic.Basic
import HierarchyLint.Graph.Cycle

/-!
# The configuration of a validation

A configuration chooses which cycles are reported, switches checks off and may turn warnings into
errors.
-/

namespace HierarchyLint

structure Config where
  cycleReporting : CycleReporting := .firstFound
  /-- The checks that are switched off. -/
  disabled : List DiagnosticKind := []
  warningsAsErrors : Bool := false
  deriving DecidableEq, Repr

namespace Config

def isEnabled (c : Config) (k : DiagnosticKind) : Bool := k ∉ c.disabled

def severity (c : Config) (k : DiagnosticKind) : Severity :=
  if c.warningsAsErrors then .error else k.severity

/-- The names of the checks that are switched off, in alphabetical order. -/
def disabledNames (c : Config) : List String :=
  ((DiagnosticKind.all.filter fun k => k ∈ c.disabled).map DiagnosticKind.text).mergeSort

end Config

end HierarchyLint
