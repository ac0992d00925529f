import HierarchyLint.Main
import HierarchyLint.Proofs.Expr.RoundTrip
import HierarchyLint.Proofs.Expr.Renaming
import HierarchyLint.Proofs.Expr.Caseless
import HierarchyLint.Proofs.Expr.Viable
import HierarchyLint.Proofs.Text.Lower
import HierarchyLint.Proofs.Validation.NameConflicts
import HierarchyLint.Proofs.Validation.Supertypes
import HierarchyLint.Proofs.Validation.WellDeclared
import HierarchyLint.Proofs.Validation.Options
import HierarchyLint.Proofs.Validation.CaselessReferences
import HierarchyLint.Proofs.Validation.Reordering
import HierarchyLint.Proofs.Validation.Normal
import HierarchyLint.Proofs.Validation.Insertion
import HierarchyLint.Proofs.Validation.Sessions
import HierarchyLint.Proofs.Cli.ExitStatus
import HierarchyLint.Proofs.Cli.ShapeCheck
import HierarchyLint.Proofs.Cli.LoadFailures
import HierarchyLint.Proofs.Expr.Faults
import HierarchyLint.Proofs.Graph.LeastReturn
import HierarchyLint.Proofs.Graph.Recursion
import HierarchyLint.Proofs.Validation.Referable
import HierarchyLint.Proofs.Hierarchy.CaseGroups
import HierarchyLint.Proofs.Validation.LegalNames
import HierarchyLint.Proofs.OccursOnce
import HierarchyLint.Proofs.Text.Alike
import HierarchyLint.Proofs.Validation.AlikeNames
import HierarchyLint.Proofs.Graph.Rings
import HierarchyLint.Proofs.Expr.Spacing
import HierarchyLint.Proofs.Expr.Tokenizing
import HierarchyLint.Proofs.Expr.Calls
import HierarchyLint.Proofs.Expr.Positions
import HierarchyLint.Proofs.Expr.Pointer
import HierarchyLint.Proofs.Diagnostic.Cell
import HierarchyLint.Proofs.Graph.History
