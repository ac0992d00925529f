import HierarchyLint.Graph.Basic
import HierarchyLint.Proofs.Expr.Reading
import HierarchyLint.Proofs.Graph.Reports
import HierarchyLint.Proofs.Hierarchy.Declared
import HierarchyLint.Proofs.Hierarchy.Naming

/-!
# The edges of a hierarchy

An edge leads from a declared type to another for every entry that parses and whose name resolves
(`mem_successors_iff`), and the text of the edge is the entry. So the cycle that a report spells
can be read back from its chain: each text is an entry of the type that the one before leads to.
-/

namespace HierarchyLint

theorem target?_ofText {source text target : String} {canonical : Table String} :
    SupertypeRef.target? ⟨source, text, .ofText canonical text⟩ = some target ↔
      ∃ e, TypeExpr.parse text = .ok e ∧ canonical.get? (Text.lower e.name) = some target := by
  unfold SupertypeRef.target? Resolution.ofText
  cases hp : TypeExpr.parse text with
  | error e => simp
  | ok e => cases hr : canonical.get? (Text.lower e.name) <;> simp [hr]

namespace Hierarchy

variable {h : Hierarchy}

/-- The text is an entry of the type `n`, it parses, and its name means the type `m`. -/
def RefersBy (h : Hierarchy) (n text m : String) : Prop :=
  ∃ d e, h.decls.get? n = some d ∧ text ∈ d.fulfills ∧ TypeExpr.parse text = .ok e ∧
    h.resolve e.name = some m

theorem nodes_ofHierarchy (h : Hierarchy) : (Graph.ofHierarchy h).nodes = h.names := by
  simp only [Graph.nodes, Graph.ofHierarchy, Graph.ofSupertypes, Graph.ofTargets, supertypes,
    Table.keys_mapValues]
  rfl

theorem successors_ofHierarchy (h : Hierarchy) (n : String) :
    (Graph.ofHierarchy h).successors n = ((h.decls.get? n).map fun d =>
      d.fulfills.filterMap fun text =>
        (SupertypeRef.target? ⟨n, text, .ofText h.canonical text⟩).map (Edge.mk text)).getD [] := by
  unfold Graph.successors Graph.ofHierarchy Graph.ofSupertypes Graph.ofTargets supertypes
  simp only [Table.get?_mapValues, Option.map_map, Function.comp_def, List.filterMap_map]

theorem mem_successors_iff {n : String} {e : Edge} :
    e ∈ (Graph.ofHierarchy h).successors n ↔ h.RefersBy n e.text e.target := by
  rw [successors_ofHierarchy]
  unfold RefersBy
  cases h.decls.get? n with
  | none => simp
  | some d =>
    simp only [Option.map_some, Option.getD_some, List.mem_filterMap, Option.map_eq_some_iff,
      target?_ofText]
    constructor
    · rintro ⟨text, htext, target, ⟨x, hx, hr⟩, rfl⟩
      exact ⟨d, x, rfl, htext, hx, hr⟩
    · rintro ⟨_, x, hd, htext, hx, hr⟩
      cases hd
      exact ⟨e.text, htext, e.target, ⟨x, hx, hr⟩, rfl⟩

theorem leads_iff {n m : String} :
    (Graph.ofHierarchy h).Leads n m ↔ ∃ text, h.RefersBy n text m := by
  unfold Graph.Leads
  constructor
  · rintro ⟨e, he, rfl⟩
    exact ⟨e.text, mem_successors_iff.1 he⟩
  · rintro ⟨text, ht⟩
    exact ⟨⟨text, m⟩, mem_successors_iff.2 ht, rfl⟩

theorem RefersBy.mem_names {n text m : String} (hr : h.RefersBy n text m) : m ∈ h.names := by
  obtain ⟨d, e, -, -, -, hm⟩ := hr
  exact mem_names_of_resolve hm

/-- A cycle report of a mapping spells a simple cycle of declared types: each text of its chain is
an entry in the declaration of a type, and the name in front of it means the next type. -/
theorem cycle_report_reads_back (v : Value) (h : Hierarchy) (hv : ofValue? v = some h)
    (mode : CycleReporting) (r : CycleReport) (hr : r ∈ (Graph.ofHierarchy h).cycles mode) :
    ∃ types : List String, 2 ≤ types.length ∧ types.head? = some r.typeName ∧
      types.getLast? = some r.typeName ∧ types.dropLast.Nodup ∧ (∀ n ∈ types, n ∈ h.names) ∧
      r.chain.length = types.length ∧ r.chain.head? = some r.typeName ∧
      ∀ i, i + 1 < types.length → ∃ n m text w e, types[i]? = some n ∧ types[i + 1]? = some m ∧
        r.chain[i + 1]? = some text ∧ v.declaration? n = some w ∧ HasEntry w text ∧
        TypeExpr.parse text = .ok e ∧ h.resolve e.name = some m := by
  obtain ⟨es, ht⟩ := Graph.traces_of_mem_cycles hr
  have hpos : 0 < es.length := List.length_pos_iff.2 ht.ne_nil
  have hedge : ∀ {i : Nat} {e : Edge}, es[i]? = some e →
      ∃ n, (r.typeName :: es.map Edge.target)[i]? = some n ∧ h.RefersBy n e.text e.target := by
    intro i e he
    obtain ⟨n, hn, hs⟩ := ht.walk.mem_successors he
    exact ⟨n, hn, mem_successors_iff.1 hs⟩
  refine ⟨r.typeName :: es.map Edge.target, ?_, rfl, ht.walk.getLast?, ht.nodup_dropLast, ?_, ?_,
    ?_, ?_⟩
  · rw [List.length_cons, List.length_map]
    omega
  · have htargets : ∀ n ∈ es.map Edge.target, n ∈ h.names := by
      intro n hn
      obtain ⟨e, he, rfl⟩ := List.mem_map.1 hn
      obtain ⟨i, hi⟩ := List.mem_iff_getElem?.1 he
      obtain ⟨_, -, hm⟩ := hedge hi
      exact hm.mem_names
    exact List.forall_mem_cons.2 ⟨htargets _ ht.typeName_mem, htargets⟩
  · simp [ht.chain]
  · simp [ht.chain]
  · intro i hi
    have hi' : i < es.length := by simpa using hi
    obtain ⟨n, hn, d, x, hd, htext, hx, hm⟩ := hedge (List.getElem?_eq_getElem hi')
    rw [get?_decls hv, Option.map_eq_some_iff] at hd
    obtain ⟨w, hw, rfl⟩ := hd
    refine ⟨n, es[i].target, es[i].text, w, x, hn, ?_, ?_, hw, hasEntry_iff.2 htext, hx, hm⟩
    · simp [hi']
    · simp [ht.chain, hi']

/-- A cycle below the root, found after a type that leads nowhere. -/
def belowRootEntries : List (Value × Value) :=
  [(.str "Root", .map [(.str "fulfills", .list [.str "Leaf", .str "A"])]),
    (.str "Leaf", .null),
    (.str "A", .map [(.str "fulfills", .tuple [.str "B[Root]"])]),
    (.str "B", .map [(.str "fulfills", .list [.null, .str "a"])])]

theorem cycle_belowRootEntries_reads_back :
    ofValue? (.map belowRootEntries) = some (ofEntries belowRootEntries) ∧
      ⟨"A", ["A", "B[Root]", "a"]⟩ ∈
        (Graph.ofHierarchy (ofEntries belowRootEntries)).cycles .firstFound ∧
      ∃ types : List String, 2 ≤ types.length ∧ types.head? = some "A" ∧
        types.getLast? = some "A" ∧ types.dropLast.Nodup ∧
        ∀ n ∈ types, n ∈ (ofEntries belowRootEntries).names := by
  have hv : ofValue? (.map belowRootEntries) = some (ofEntries belowRootEntries) := rfl
  have hr : ⟨"A", ["A", "B[Root]", "a"]⟩ ∈
      (Graph.ofHierarchy (ofEntries belowRootEntries)).cycles .firstFound := by decide +kernel
  obtain ⟨types, hlen, hhead, hlast, hnodup, hnames, -⟩ :=
    cycle_report_reads_back _ _ hv .firstFound _ hr
  exact ⟨hv, hr, types, hlen, hhead, hlast, hnodup, hnames⟩

end Hierarchy

end HierarchyLint
