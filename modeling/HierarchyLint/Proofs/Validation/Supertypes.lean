import HierarchyLint.Graph.Basic
import HierarchyLint.Proofs.Expr.Reading
import HierarchyLint.Proofs.Hierarchy.Edges
import HierarchyLint.Proofs.Hierarchy.Naming
import HierarchyLint.Proofs.Hierarchy.References
import HierarchyLint.Proofs.Validation.Kinds

/-!
# What references come to

Two readers go through the references of a hierarchy: one reports those that lead nowhere, the
other makes edges of the rest. `Outcome` is the common answer. A reference has exactly one outcome
(`comesTo_iff`), the reports are those of the outcomes (`badSupertypes_supertypes`) and so are the
edges (`edgeList_ofHierarchy`). Main statement: every string in the `fulfills` list of a kept
declaration is reported once or makes one edge, and both come in the order of these strings.
-/

namespace HierarchyLint

/-- What a reference comes to: a problem or an edge. -/
inductive Outcome where
  | unparseable (source text : String) (e : ParseError)
  /-- No declared name is the name in front of the expression. -/
  | undefined (source base : String)
  | edge (source : String) (e : Edge)

namespace Outcome

def report? : Outcome → Option (DiagnosticKind × List Value)
  | unparseable source text e => some (.unparseableSupertype, [.str source, .str text, .error e])
  | undefined source base => some (.undefinedSupertype, [.str source, .str base])
  | edge _ _ => none

def edge? : Outcome → Option (String × Edge)
  | edge source e => some (source, e)
  | _ => none

/-- Every outcome is either reported or an edge. -/
theorem length_eq_reports_add_edges (os : List Outcome) :
    os.length = (os.filterMap report?).length + (os.filterMap edge?).length := by
  induction os with
  | nil => rfl
  | cons o os ih =>
    cases o <;> simp only [List.filterMap_cons, report?, edge?, List.length_cons] <;> omega

theorem kind_of_report? {o : Outcome} {r : DiagnosticKind × List Value} (h : o.report? = some r) :
    r.1 = .unparseableSupertype ∨ r.1 = .undefinedSupertype := by
  cases o with
  | unparseable => cases h; exact .inl rfl
  | undefined => cases h; exact .inr rfl
  | edge => cases h

end Outcome

/-- What the text comes to in the declaration of `source` if these names are declared. Case is
ignored, and of several names that match the first is meant. -/
inductive ComesTo (names : List String) (source text : String) : Outcome → Prop where
  | unparseable {e : ParseError} : TypeExpr.parse text = .error e → e.text = text →
      ComesTo names source text (.unparseable source text e)
  | undefined {x : TypeExpr} : TypeExpr.parse text = .ok x →
      (∀ n ∈ names, Text.lower n ≠ Text.lower x.name) →
      ComesTo names source text (.undefined source x.name)
  | edge {x : TypeExpr} {before after : List String} {target : String} :
      TypeExpr.parse text = .ok x → names = before ++ target :: after →
      Text.lower target = Text.lower x.name → (∀ n ∈ before, Text.lower n ≠ Text.lower x.name) →
      ComesTo names source text (.edge source ⟨text, target⟩)

/-- The outcome of a text by parsing and lookup. -/
def outcome (names : List String) (source text : String) : Outcome :=
  match TypeExpr.parse text with
  | .error e => .unparseable source text e
  | .ok x =>
    match names.find? fun n => Text.lower n == Text.lower x.name with
    | none => .undefined source x.name
    | some target => .edge source ⟨text, target⟩

section
variable {names : List String} {source text target : String} {e : ParseError} {x : TypeExpr}

theorem outcome_of_error (hp : TypeExpr.parse text = .error e) :
    outcome names source text = .unparseable source text e := by
  simp only [outcome, hp]

theorem outcome_of_not_found (hp : TypeExpr.parse text = .ok x)
    (hf : names.find? (fun n => Text.lower n == Text.lower x.name) = none) :
    outcome names source text = .undefined source x.name := by
  simp only [outcome, hp, hf]

theorem outcome_of_found (hp : TypeExpr.parse text = .ok x)
    (hf : names.find? (fun n => Text.lower n == Text.lower x.name) = some target) :
    outcome names source text = .edge source ⟨text, target⟩ := by
  simp only [outcome, hp, hf]

theorem comesTo_outcome (names : List String) (source text : String) :
    ComesTo names source text (outcome names source text) := by
  cases hp : TypeExpr.parse text with
  | error e =>
    rw [outcome_of_error hp]
    exact .unparseable hp (text_of_parse_eq_error hp)
  | ok x =>
    cases hf : names.find? fun n => Text.lower n == Text.lower x.name with
    | none =>
      rw [outcome_of_not_found hp hf]
      refine .undefined hp fun n hn => ?_
      simpa using List.find?_eq_none.1 hf n hn
    | some target =>
      obtain ⟨htarget, before, after, hnames, hbefore⟩ := List.find?_eq_some_iff_append.1 hf
      rw [outcome_of_found hp hf]
      refine .edge hp hnames (beq_iff_eq.1 htarget) fun n hn => ?_
      simpa using hbefore n hn

theorem comesTo_iff {o : Outcome} :
    ComesTo names source text o ↔ o = outcome names source text := by
  constructor
  · intro h
    cases h with
    | unparseable hp => rw [outcome_of_error hp]
    | undefined hp hnone =>
      rw [outcome_of_not_found hp]
      exact List.find?_eq_none.2 fun n hn => by simpa using hnone n hn
    | @edge x before after target hp hnames htarget hbefore =>
      rw [outcome_of_found hp]
      refine List.find?_eq_some_iff_append.2 ⟨beq_iff_eq.2 htarget, before, after, hnames, ?_⟩
      intro n hn
      simpa using hbefore n hn
  · rintro rfl
    exact comesTo_outcome names source text

end

/-! ## The two readers -/

/-- The edges of a graph, each with the node that it leaves. -/
def Graph.edgeList (g : Graph) : List (String × Edge) :=
  g.edges.entries.flatMap fun e => e.2.map (Prod.mk e.1)

def Resolution.outcome (source text : String) : Resolution → Outcome
  | .unparseable e => .unparseable source text e
  | .undefined x => .undefined source x.name
  | .declared _ target => .edge source ⟨text, target⟩

namespace Hierarchy

theorem outcome_eq (h : Hierarchy) (source text : String) :
    outcome h.names source text
      = (Resolution.ofText h.canonical text).outcome source text := by
  unfold Resolution.ofText
  cases hp : TypeExpr.parse text with
  | error e => exact outcome_of_error hp
  | ok x =>
    have hr : h.canonical.get? (Text.lower x.name)
        = h.names.find? fun n => Text.lower n == Text.lower x.name := resolve_eq_find? h x.name
    dsimp only
    rw [hr]
    cases hf : h.names.find? fun n => Text.lower n == Text.lower x.name with
    | none => exact outcome_of_not_found hp hf
    | some target => exact outcome_of_found hp hf

theorem report_supertypeFinding? (h : Hierarchy) (source text : String) :
    (supertypeFinding? source ⟨source, text, .ofText h.canonical text⟩).map
        (fun f => (f.kind, f.args)) = (outcome h.names source text).report? := by
  rw [outcome_eq, supertypeFinding?]
  cases Resolution.ofText h.canonical text <;> rfl

theorem edge_target? (h : Hierarchy) (source text : String) :
    (SupertypeRef.target? ⟨source, text, .ofText h.canonical text⟩).map
        (fun target => (source, Edge.mk text target)) = (outcome h.names source text).edge? := by
  rw [outcome_eq, SupertypeRef.target?]
  cases Resolution.ofText h.canonical text <;> rfl

def outcomes (h : Hierarchy) : List Outcome :=
  h.references.map fun r => outcome h.names r.1 r.2

theorem badSupertypes_supertypes (h : Hierarchy) :
    (badSupertypes h.supertypes).map (fun f => (f.kind, f.args))
      = h.outcomes.filterMap Outcome.report? := by
  rw [badSupertypes, supertypes, Table.mapValues, List.flatMap_map, List.map_flatMap, outcomes,
    references, List.filterMap_map, List.filterMap_flatMap]
  refine List.flatMap_congr fun e _ => ?_
  rw [List.filterMap_map, List.filterMap_map, List.map_filterMap]
  exact List.filterMap_congr fun text _ => report_supertypeFinding? h e.1 text

theorem edgeList_ofHierarchy (h : Hierarchy) :
    (Graph.ofHierarchy h).edgeList = h.outcomes.filterMap Outcome.edge? := by
  rw [Graph.edgeList, Graph.ofHierarchy, Graph.ofSupertypes, Graph.ofTargets, supertypes, outcomes,
    references, List.filterMap_map, List.filterMap_flatMap]
  simp only [Table.mapValues, List.map_map, List.flatMap_map]
  refine List.flatMap_congr fun e _ => ?_
  simp only [List.filterMap_map, List.map_filterMap, List.map_map, Function.comp_def,
    Option.map_map]
  exact List.filterMap_congr fun text _ => edge_target? h e.1 text

end Hierarchy

/-! ## Diagnostics -/

def supertypeDiagnostics (c : Config) (v : Value) : List Diagnostic :=
  (validate c v).filter fun d =>
    d.kind = .unparseableSupertype ∨ d.kind = .undefinedSupertype

theorem length_supertypeDiagnostics (c : Config) (v : Value) :
    (supertypeDiagnostics c v).length = (diagnosticsOf c .unparseableSupertype v).length
      + (diagnosticsOf c .undefinedSupertype v).length := by
  have hunparseable : (supertypeDiagnostics c v).filter (fun d => d.kind = .unparseableSupertype)
      = diagnosticsOf c .unparseableSupertype v := by
    rw [supertypeDiagnostics, List.filter_filter]
    exact List.filter_congr fun d _ => by cases d.kind <;> rfl
  have hundefined :
      (supertypeDiagnostics c v).filter (fun d => !decide (d.kind = .unparseableSupertype))
        = diagnosticsOf c .undefinedSupertype v := by
    rw [supertypeDiagnostics, List.filter_filter]
    exact List.filter_congr fun d _ => by cases d.kind <;> rfl
  rw [← hunparseable, ← hundefined]
  exact List.length_eq_length_filter_add _

theorem map_supertypeDiagnostics (c : Config) {v : Value} {h : Hierarchy}
    (hv : Hierarchy.ofValue? v = some h) :
    (supertypeDiagnostics c v).map (fun d => (d.kind, d.args))
      = (h.outcomes.filterMap Outcome.report?).filter fun r => c.isEnabled r.1 := by
  rw [supertypeDiagnostics,
    filter_validate c v fun k => k = .unparseableSupertype ∨ k = .undefinedSupertype,
    findings_eq hv, Hierarchy.filter_findings_supertype, map_filterMap_diagnose?,
    Hierarchy.badSupertypes_supertypes]

theorem length_outcomes (c : Config) (hp : c.isEnabled .unparseableSupertype = true)
    (hu : c.isEnabled .undefinedSupertype = true) {v : Value} {h : Hierarchy}
    (hv : Hierarchy.ofValue? v = some h) :
    h.outcomes.length
      = (supertypeDiagnostics c v).length + (Graph.ofHierarchy h).edgeList.length := by
  have hall : (h.outcomes.filterMap Outcome.report?).filter (fun r => c.isEnabled r.1)
      = h.outcomes.filterMap Outcome.report? := by
    refine List.filter_eq_self.2 fun r hr => ?_
    obtain ⟨o, -, hr⟩ := List.mem_filterMap.1 hr
    rcases Outcome.kind_of_report? hr with hk | hk
    · rw [hk, hp]
    · rw [hk, hu]
  have hreports := congrArg List.length (map_supertypeDiagnostics c hv)
  rw [hall, List.length_map] at hreports
  rw [Outcome.length_eq_reports_add_edges, ← hreports, Hierarchy.edgeList_ofHierarchy]

/-- Every reference that a mapping writes has exactly one outcome among the names that it declares.
The diagnostics about references are those of the outcomes, as far as their kinds are switched on,
and the edges of the graph are the others; so with both kinds switched on none is lost. -/
theorem references_are_reported_or_edges (c : Config) (v : Value) (h : Hierarchy)
    (entries : List (Value × Value)) (hv : Hierarchy.ofValue? v = some h)
    (he : v.entries? = some entries) :
    (∀ source text, ∃! o, ComesTo (keptNames entries) source text o) ∧
    ∃ outcomes : List Outcome,
      List.Forall₂ (fun r o => ComesTo (keptNames entries) r.1 r.2 o) (writtenRefs entries)
        outcomes ∧
      (supertypeDiagnostics c v).map (fun d => (d.kind, d.args))
        = (outcomes.filterMap Outcome.report?).filter (fun r => c.isEnabled r.1) ∧
      (Graph.ofHierarchy h).nodes = keptNames entries ∧
      (Graph.ofHierarchy h).edgeList = outcomes.filterMap Outcome.edge? ∧
      (c.isEnabled .unparseableSupertype = true → c.isEnabled .undefinedSupertype = true →
        (writtenRefs entries).length = (diagnosticsOf c .unparseableSupertype v).length
          + (diagnosticsOf c .undefinedSupertype v).length
          + (Graph.ofHierarchy h).edgeList.length) := by
  have hnames := Hierarchy.names_of_ofValue? hv he
  have hrefs := Hierarchy.references_eq hv he
  refine ⟨fun source text => ?_, h.outcomes, ?_, map_supertypeDiagnostics c hv, ?_,
    Hierarchy.edgeList_ofHierarchy h, fun hp hu => ?_⟩
  · exact ⟨_, comesTo_outcome _ _ _, fun o ho => comesTo_iff.1 ho⟩
  · rw [Hierarchy.outcomes, hrefs, List.forall₂_map_right_iff, List.forall₂_same, hnames]
    exact fun r _ => comesTo_outcome _ r.1 r.2
  · rw [Hierarchy.nodes_ofHierarchy, hnames]
  · have hlength := length_outcomes c hp hu hv
    rwa [Hierarchy.outcomes, List.length_map, hrefs, length_supertypeDiagnostics] at hlength

/-- A malformed reference, one to a type that is not declared, two that ignore case, and items and
declarations that refer to nothing. -/
def raggedEntries : List (Value × Value) :=
  [(.str "Root", .map [(.str "fulfills",
      .list [.str "leaf", .int 1, .str "Leaf[", .str "Gone[Root]"])]),
    (.str "Leaf", .str "Root"),
    (.str "LEAF", .decl ⟨["ROOT"], []⟩),
    (.str "Root", .map [(.str "fulfills", .list [.str "Lost"])])]

theorem references_of_raggedEntries :
    Hierarchy.ofValue? (.map raggedEntries) = some (.ofEntries raggedEntries) ∧
      Value.entries? (.map raggedEntries) = some raggedEntries ∧
      writtenRefs raggedEntries
        = [("Root", "leaf"), ("Root", "Leaf["), ("Root", "Gone[Root]"), ("LEAF", "ROOT")] ∧
      (Graph.ofHierarchy (.ofEntries raggedEntries)).edgeList
        = [("Root", ⟨"leaf", "Leaf"⟩), ("LEAF", ⟨"ROOT", "Root"⟩)] ∧
      (writtenRefs raggedEntries).length
        = (diagnosticsOf {} .unparseableSupertype (.map raggedEntries)).length
          + (diagnosticsOf {} .undefinedSupertype (.map raggedEntries)).length
          + (Graph.ofHierarchy (.ofEntries raggedEntries)).edgeList.length := by
  have hv : Hierarchy.ofValue? (.map raggedEntries) = some (.ofEntries raggedEntries) := rfl
  have he : Value.entries? (.map raggedEntries) = some raggedEntries := rfl
  obtain ⟨-, outcomes, -, -, -, -, hcount⟩ := references_are_reported_or_edges {} _ _ _ hv he
  refine ⟨hv, he, ?_, ?_, hcount rfl rfl⟩
  · decide +kernel
  · decide +kernel

end HierarchyLint
