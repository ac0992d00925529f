import HierarchyLint.Proofs.Graph.Relabel
import HierarchyLint.Proofs.Graph.Reports
import HierarchyLint.Proofs.Hierarchy.Naming
import HierarchyLint.Proofs.Hierarchy.Positions
import HierarchyLint.Proofs.Hierarchy.References
import HierarchyLint.Graph.Basic

/-!
# Declarations in another order

If the keys of a mapping differ by more than case, the order in which they stand decides neither
what a name means nor what a reference leads to. So the graph keeps the edges of every type, in
their order, and only its nodes come in another one; the first cycle through a type stays the same
and so does the question whether there is any cycle.
-/

namespace HierarchyLint

/-- The second mapping has the entries of the first one, in whatever order. -/
inductive Value.Reorders : Value → Value → Prop where
  | map {entries entries' : List (Value × Value)} : entries.Perm entries' →
      Reorders (.map entries) (.map entries')
  | hierarchy {decls decls' : Table TypeDecl} {duplicates duplicates' : List (String × List Value)} :
      decls.entries.Perm decls'.entries → duplicates.Perm duplicates' →
      Reorders (.hierarchy decls duplicates) (.hierarchy decls' duplicates')

structure Hierarchy.Reorders (h h' : Hierarchy) : Prop where
  decls : h.decls.entries.Perm h'.decls.entries
  duplicates : h.duplicates.Perm h'.duplicates
  distinct : (h.names.map Text.lower).Nodup

theorem Table.get?_eq_of_perm {α : Type} {t u : Table α} (hp : t.entries.Perm u.entries)
    (key : String) : u.get? key = t.get? key := by
  refine Option.ext fun v => ?_
  rw [get?_eq_some_iff, get?_eq_some_iff, hp.mem_iff]

/-! ## Graphs -/

namespace Graph

variable {g g' : Graph} (hp : g.edges.entries.Perm g'.edges.entries)
include hp

theorem nodes_perm : g.nodes.Perm g'.nodes := hp.map Prod.fst

theorem successors_eq_of_perm (n : String) : g'.successors n = g.successors n := by
  rw [successors, Table.get?_eq_of_perm hp]
  rfl

theorem cycleThrough_eq_of_perm (n : String) : g'.cycleThrough n = g.cycleThrough n := by
  have hg : Relabels id g g' := fun n => (successors_eq_of_perm hp n).trans (List.map_id _).symm
  have hid : CycleReport.mapTexts id = id := by
    funext r
    simp only [CycleReport.mapTexts, List.map_id, List.take_append_drop, id]
  rw [cycleThrough_relabel hg, hid, Option.map_id, id]

theorem perMember_perm : (g.cycles .perMember).Perm (g'.cycles .perMember) := by
  have hthrough : g'.cycleThrough = g.cycleThrough := funext (cycleThrough_eq_of_perm hp)
  rw [cycles, cycles, hthrough]
  exact (nodes_perm hp).filterMap _

theorem cycles_eq_nil_iff_of_perm (mode : CycleReporting) :
    g'.cycles mode = [] ↔ g.cycles mode = [] := by
  have hleads : g'.Leads = g.Leads := by
    funext u v
    rw [Leads, successors_eq_of_perm hp]
    rfl
  rw [cycles_eq_nil_iff, cycles_eq_nil_iff, Acyclic, Acyclic]
  unfold OnCycle
  rw [hleads]

end Graph

/-! ## Hierarchies -/

namespace Hierarchy

namespace Reorders

variable {h h' : Hierarchy} (hr : h.Reorders h')
include hr

theorem names_perm : h.names.Perm h'.names := hr.decls.map Prod.fst

theorem distinct_right : (h'.names.map Text.lower).Nodup :=
  (hr.names_perm.map Text.lower).nodup_iff.1 hr.distinct

/-- A name means the same type, for only one type can be meant. -/
theorem resolve_eq (name : String) : h'.resolve name = h.resolve name := by
  refine Option.ext fun target => ?_
  rw [resolve_eq_some_iff hr.distinct, resolve_eq_some_iff hr.distinct_right, hr.names_perm.mem_iff]

theorem ofText_eq (text : String) :
    Resolution.ofText h'.canonical text = Resolution.ofText h.canonical text := by
  unfold Resolution.ofText
  cases TypeExpr.parse text with
  | error e => rfl
  | ok e =>
    have hget : h'.canonical.get? (Text.lower e.name) = h.canonical.get? (Text.lower e.name) :=
      hr.resolve_eq e.name
    dsimp only
    rw [hget]

theorem supertypes_perm : h.supertypes.entries.Perm h'.supertypes.entries := by
  unfold Hierarchy.supertypes Table.mapValues
  simp only [hr.ofText_eq]
  exact hr.decls.map _

theorem edges_perm :
    (Graph.ofHierarchy h).edges.entries.Perm (Graph.ofHierarchy h').edges.entries :=
  (hr.supertypes_perm.map _).map _

end Reorders

end Hierarchy

/-- Two orders of a mapping whose keys differ by more than case declare the same. -/
theorem Value.Reorders.ofValue? {v v' : Value} (hr : v.Reorders v')
    {entries : List (Value × Value)} (he : v.entries? = some entries)
    (hkeys : (entries.map fun e => Text.lower e.1.text).Nodup) :
    ∃ h h', Hierarchy.ofValue? v = some h ∧ Hierarchy.ofValue? v' = some h' ∧ h.Reorders h' := by
  cases hr with
  | @map _ entries' hp =>
    cases he
    have hn := Hierarchy.nodup_text hkeys
    have hn' := (hp.map fun e => e.1.text).nodup_iff.1 hn
    refine ⟨_, _, rfl, rfl, ?_, ?_, ?_⟩
    · rw [Hierarchy.entries_decls_of_nodup hn, Hierarchy.entries_decls_of_nodup hn']
      exact hp.map _
    · rw [Hierarchy.duplicates_ofEntries_eq_nil_iff.2 hn,
        Hierarchy.duplicates_ofEntries_eq_nil_iff.2 hn']
    · rwa [Hierarchy.names_ofEntries hn, List.map_map]
  | hierarchy hdecls hduplicates =>
    cases he
    refine ⟨_, _, rfl, rfl, hdecls, hduplicates, ?_⟩
    rw [List.map_map] at hkeys
    rwa [Hierarchy.names, Table.keys, List.map_map]

end HierarchyLint
