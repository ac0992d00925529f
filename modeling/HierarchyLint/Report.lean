import HierarchyLint.Diagnostic.Basic
import HierarchyLint.File.Path

/-!
# Reports

A report lists diagnostics in a table, numbered from one, under the name of the file that they are
about. Its cells are console markup.
-/

namespace HierarchyLint

structure Report where
  title : String
  columns : List String
  rows : List (List String)
  deriving DecidableEq, Repr

namespace Severity

def markup : Severity → String
  | error => "[red]error[/]"
  | warning => "[yellow]warning[/]"

end Severity

namespace Report

def columnHeads : List String := ["#", "Severity", "Kind", "Message"]

def row (entry : Diagnostic × Nat) : Except Text.Template.Fault (List String) :=
  let (d, index) := entry
  d.cell.map fun cell => [toString (index + 1), d.severity.markup, d.kind.text, cell]

def ofDiagnostics (ds : List Diagnostic) (file : Path) : Except Text.Template.Fault Report :=
  (ds.zipIdx.mapM row).map fun rows =>
    ⟨"Type Hierarchy: " ++ file.name, columnHeads, rows⟩

end Report

end HierarchyLint
