import HierarchyLint.Proofs.Expr.Caseless
import HierarchyLint.Proofs.Graph.Relabel
import HierarchyLint.Proofs.Hierarchy.Edges
import HierarchyLint.Proofs.Hierarchy.Rewriting
import HierarchyLint.Proofs.Validation.Supertypes

/-!
# References in lower case

A reference in lower case is malformed, undefined or declared as the reference itself is, and it
leads to the same type (`alike_ofText_lower`). So a mapping with all references in lower case has
the same edges, and validating it finds problems of the same kinds about the same types.
-/

namespace HierarchyLint

/-- The resolutions are of one sort, have the same fault and lead to the same type. -/
inductive Resolution.Alike : Resolution → Resolution → Prop where
  | unparseable {e e' : ParseError} : e'.fault = e.fault → Alike (.unparseable e) (.unparseable e')
  | undefined (x x' : TypeExpr) : Alike (.undefined x) (.undefined x')
  | declared (x x' : TypeExpr) (target : String) : Alike (.declared x target) (.declared x' target)

theorem Resolution.Alike.target?_eq {r r' : Resolution} (h : r.Alike r')
    (source text text' : String) :
    SupertypeRef.target? ⟨source, text', r'⟩ = SupertypeRef.target? ⟨source, text, r⟩ := by
  cases h <;> rfl

theorem Resolution.alike_ofText_lower (canonical : Table String) (text : String) :
    (ofText canonical text).Alike (ofText canonical (Text.lower text)) := by
  unfold ofText
  have hparse := parse_lower text
  generalize TypeExpr.parse text = answer at hparse ⊢
  generalize TypeExpr.parse (Text.lower text) = answer' at hparse ⊢
  cases hparse with
  | error => exact .unparseable rfl
  | ok x =>
    dsimp only
    rw [TypeExpr.name_mapNames, Text.lower_lower]
    cases canonical.get? (Text.lower x.name) with
    | none => exact .undefined _ _
    | some target => exact .declared _ _ target

theorem target?_lower (canonical : Table String) (source text : String) :
    SupertypeRef.target? ⟨source, Text.lower text, .ofText canonical (Text.lower text)⟩
      = SupertypeRef.target? ⟨source, text, .ofText canonical text⟩ :=
  (Resolution.alike_ofText_lower canonical text).target?_eq source _ _

/-- What a finding is about: its kind and its first argument. -/
def Finding.subject (f : Finding) : DiagnosticKind × Option Value := (f.kind, f.args.head?)

theorem Resolution.Alike.subject_eq {r r' : Resolution} (h : r.Alike r')
    (source text text' : String) :
    (Hierarchy.supertypeFinding? source ⟨source, text', r'⟩).map Finding.subject
      = (Hierarchy.supertypeFinding? source ⟨source, text, r⟩).map Finding.subject := by
  cases h <;> rfl

theorem subject_supertypeFinding?_lower (canonical : Table String) (source text : String) :
    (Hierarchy.supertypeFinding? source
        ⟨source, Text.lower text, .ofText canonical (Text.lower text)⟩).map Finding.subject
      = (Hierarchy.supertypeFinding? source
          ⟨source, text, .ofText canonical text⟩).map Finding.subject :=
  (Resolution.alike_ofText_lower canonical text).subject_eq source _ _

/-! ## The graph -/

namespace Graph

variable {f : String → String} {g g' : Graph}

theorem edgeList_eq (g : Graph) :
    g.edgeList = g.nodes.flatMap fun n => (g.successors n).map (Prod.mk n) := by
  rw [edgeList, nodes, Table.keys, List.flatMap_map]
  exact List.flatMap_congr fun e he => by rw [successors_eq_of_mem he]

theorem edgeList_relabel (hg : Relabels f g g') (hnodes : g'.nodes = g.nodes) :
    g'.edgeList = g.edgeList.map fun e => (e.1, e.2.mapText f) := by
  rw [edgeList_eq, edgeList_eq, hnodes, List.map_flatMap]
  refine List.flatMap_congr fun n _ => ?_
  rw [hg n, List.map_map, List.map_map]
  rfl

end Graph

namespace Hierarchy

theorem nodes_mapReferences (f : String → String) (h : Hierarchy) :
    (Graph.ofHierarchy (h.mapReferences f)).nodes = (Graph.ofHierarchy h).nodes := by
  rw [nodes_ofHierarchy, nodes_ofHierarchy, names_mapReferences]

theorem canonical_mapReferences (f : String → String) (h : Hierarchy) :
    (h.mapReferences f).canonical = h.canonical := by
  rw [canonical, names_mapReferences]
  rfl

theorem targets_lower (h : Hierarchy) :
    ((h.mapReferences Text.lower).supertypes.mapValues fun _ rs => rs.map SupertypeRef.target?)
      = h.supertypes.mapValues fun _ rs => rs.map SupertypeRef.target? := by
  unfold supertypes
  rw [canonical_mapReferences]
  unfold mapReferences TypeDecl.mapReferences
  simp only [Table.mapValues_mapValues, List.map_map, Function.comp_def, target?_lower]

theorem relabels_lower (h : Hierarchy) :
    Graph.Relabels Text.lower (.ofHierarchy h) (.ofHierarchy (h.mapReferences Text.lower)) := by
  intro n
  rw [successors_ofHierarchy, successors_ofHierarchy, canonical_mapReferences]
  unfold mapReferences
  rw [Table.get?_mapValues]
  cases h.decls.get? n with
  | none => rfl
  | some d =>
    simp only [Option.map_some, Option.getD_some, TypeDecl.mapReferences, List.filterMap_map,
      List.map_filterMap, Function.comp_def, target?_lower, Option.map_map]
    rfl

theorem cycles_lower (h : Hierarchy) (mode : CycleReporting) :
    (Graph.ofHierarchy (h.mapReferences Text.lower)).cycles mode
      = ((Graph.ofHierarchy h).cycles mode).map (CycleReport.mapTexts Text.lower) :=
  Graph.cycles_relabel (relabels_lower h) (nodes_mapReferences _ h) mode

/-! ## Findings -/

theorem nameConflicts_mapReferences (f : String → String) (h : Hierarchy) :
    (h.mapReferences f).nameConflicts = h.nameConflicts := by
  unfold nameConflicts caseGroups
  rw [names_mapReferences]
  rfl

theorem subject_badSupertypes_lower (h : Hierarchy) :
    (badSupertypes (h.mapReferences Text.lower).supertypes).map Finding.subject
      = (badSupertypes h.supertypes).map Finding.subject := by
  unfold badSupertypes supertypes
  rw [canonical_mapReferences]
  simp only [mapReferences, TypeDecl.mapReferences, Table.mapValues, List.flatMap_map,
    List.map_flatMap, List.map_map, List.filterMap_map, List.map_filterMap, Function.comp_def,
    subject_supertypeFinding?_lower]

theorem subject_circularDependencies_lower (c : Config) (h : Hierarchy) :
    (circularDependencies c (.ofHierarchy (h.mapReferences Text.lower))).map Finding.subject
      = (circularDependencies c (.ofHierarchy h)).map Finding.subject := by
  unfold circularDependencies
  split
  · rw [cycles_lower, List.map_map, List.map_map, List.map_map]
    rfl
  · rfl

theorem subject_findings_lower (c : Config) (h : Hierarchy) :
    ((h.mapReferences Text.lower).findings c).map Finding.subject
      = (h.findings c).map Finding.subject := by
  have hchars : (h.mapReferences Text.lower).illegalCharacters = h.illegalCharacters := by
    rw [illegalCharacters, names_mapReferences, illegalCharacters]
  have hgenerics : (h.mapReferences Text.lower).genericNames = h.genericNames := by
    rw [genericNames, names_mapReferences, genericNames]
  have hcycles := subject_circularDependencies_lower c h
  unfold Graph.ofHierarchy at hcycles
  simp only [findings, List.map_append, nameConflicts_mapReferences, hchars, hgenerics,
    subject_badSupertypes_lower, hcycles]

end Hierarchy

/-! ## Diagnostics -/

theorem map_subject_diagnose? (c : Config) (fs : List Finding) :
    (fs.filterMap (Finding.diagnose? c)).map (fun d => (d.kind, d.severity, d.args.head?))
      = ((fs.map Finding.subject).filter fun s => c.isEnabled s.1).map
          fun s => (s.1, c.severity s.1, s.2) := by
  rw [filterMap_diagnose?_eq, List.filter_map, List.map_map, List.map_map]
  rfl

/-- Writing every reference of a mapping in lower case changes neither its edges, by position and
target, nor the types and the lengths of its cycles, nor what its diagnostics are about. -/
theorem lower_references_same_subjects (c : Config) (v : Value) (h : Hierarchy)
    (hv : Hierarchy.ofValue? v = some h) :
    ∃ h', Hierarchy.ofValue? (v.mapReferences Text.lower) = some h' ∧
      (h'.supertypes.mapValues fun _ rs => rs.map SupertypeRef.target?)
        = (h.supertypes.mapValues fun _ rs => rs.map SupertypeRef.target?) ∧
      (Graph.ofHierarchy h').nodes = (Graph.ofHierarchy h).nodes ∧
      (Graph.ofHierarchy h').edgeList.map (fun e => (e.1, e.2.target))
        = (Graph.ofHierarchy h).edgeList.map (fun e => (e.1, e.2.target)) ∧
      (∀ mode, ((Graph.ofHierarchy h').cycles mode).map
          (fun r => (r.typeName, r.chain.head?, r.chain.length))
        = ((Graph.ofHierarchy h).cycles mode).map
          fun r => (r.typeName, r.chain.head?, r.chain.length)) ∧
      (validate c (v.mapReferences Text.lower)).map (fun d => (d.kind, d.severity, d.args.head?))
        = (validate c v).map fun d => (d.kind, d.severity, d.args.head?) := by
  have hv' : Hierarchy.ofValue? (v.mapReferences Text.lower)
      = some (h.mapReferences Text.lower) := by
    rw [Hierarchy.ofValue?_mapReferences, hv]
    rfl
  refine ⟨_, hv', Hierarchy.targets_lower h, Hierarchy.nodes_mapReferences _ h, ?_,
    fun mode => ?_, ?_⟩
  · rw [Graph.edgeList_relabel (Hierarchy.relabels_lower h) (Hierarchy.nodes_mapReferences _ h),
      List.map_map]
    rfl
  · rw [Hierarchy.cycles_lower, List.map_map]
    refine List.map_congr_left fun r _ => ?_
    rw [Function.comp_apply, r.head?_chain_mapTexts, r.length_chain_mapTexts]
    rfl
  · rw [validate, validate, findings_eq hv, findings_eq hv', map_subject_diagnose?,
      map_subject_diagnose?, Hierarchy.subject_findings_lower]

/-- A cycle of two names: a sigma at the end of the one has a lower case of its own, and the other
becomes longer. -/
def sigmaEntries : List (Value × Value) :=
  [(.str "ΟΔΟΣ", .map [(.str "fulfills", .list [.str "İ[ΟΔΟΣ]", .null, .str "ΟΔΟΣ["])]),
    (.str "İ", .decl ⟨["ΟΔΟΣ"], []⟩)]

theorem lower_references_sigmaEntries :
    Hierarchy.ofValue? (.map sigmaEntries) = some (.ofEntries sigmaEntries) ∧
      ((Hierarchy.ofEntries sigmaEntries).mapReferences Text.lower).references
        = [("ΟΔΟΣ", "i̇[οδος]"), ("ΟΔΟΣ", "οδος["), ("İ", "οδος")] ∧
      ∃ h', Hierarchy.ofValue? (Value.mapReferences Text.lower (.map sigmaEntries)) = some h' ∧
        ((Graph.ofHierarchy h').cycles .firstFound).map (fun r => (r.typeName, r.chain.length))
          = [("ΟΔΟΣ", 3)] ∧
        (validate {} (Value.mapReferences Text.lower (.map sigmaEntries))).map
            (fun d => (d.kind, d.severity, d.args.head?))
          = (validate {} (.map sigmaEntries)).map fun d => (d.kind, d.severity, d.args.head?) := by
  have hv : Hierarchy.ofValue? (.map sigmaEntries) = some (.ofEntries sigmaEntries) := rfl
  obtain ⟨h', hv', -, -, -, hcycles, hvalidate⟩ := lower_references_same_subjects {} _ _ hv
  refine ⟨hv, ?_, h', hv', ?_, hvalidate⟩
  · decide +kernel
  · have hlengths := congrArg (List.map fun r => (r.1, r.2.2)) (hcycles .firstFound)
    rw [List.map_map, List.map_map] at hlengths
    refine hlengths.trans ?_
    decide +kernel

end HierarchyLint
