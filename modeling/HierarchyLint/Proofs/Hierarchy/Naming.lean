import HierarchyLint.Hierarchy.Basic
import HierarchyLint.Proofs.Table.Grouping
import Mathlib.Data.List.Nodup

/-!
# Names without case

References find the first declared name with their lower-case form (`resolve_eq_find?`), and the
groups of `caseGroups` are the declared names with a common one. There is no group exactly if the
names differ by more than case.
-/

namespace HierarchyLint

namespace Table

theorem get?_foldl_insertNew (f : String → String) (names : List String) (t : Table String)
    (key : String) :
    (names.foldl (fun t name => t.insertNew (f name) name) t).get? key =
      (t.get? key).or (names.find? fun name => f name == key) := by
  induction names generalizing t with
  | nil => simp
  | cons name names ih =>
    rw [List.foldl_cons, ih]
    by_cases hk : f name = key
    · subst hk
      rw [insertNew, get?_alter_self]
      cases t.get? (f name) <;> simp
    · rw [insertNew, get?_alter_ne _ (Ne.symm hk)]
      simp [hk]

end Table

namespace Hierarchy

variable {h : Hierarchy} {name target : String}

/-- A reference means the first declared name that has its lower-case form. -/
theorem resolve_eq_find? (h : Hierarchy) (name : String) :
    h.resolve name = h.names.find? fun n => Text.lower n == Text.lower name := by
  rw [resolve, canonical, Table.get?_foldl_insertNew]
  rfl

theorem mem_names_of_resolve (hr : h.resolve name = some target) : target ∈ h.names := by
  rw [resolve_eq_find?] at hr
  exact List.mem_of_find?_eq_some hr

theorem lower_eq_of_resolve (hr : h.resolve name = some target) :
    Text.lower target = Text.lower name := by
  rw [resolve_eq_find?] at hr
  simpa using List.find?_some hr

theorem resolve_congr {other : String} (hl : Text.lower name = Text.lower other) :
    h.resolve name = h.resolve other := by
  rw [resolve, resolve, hl]

/-- What a reference means is what its own name means. -/
theorem resolve_target (hr : h.resolve name = some target) : h.resolve target = some target := by
  rw [resolve_congr (lower_eq_of_resolve hr), hr]

theorem resolve_isSome_iff :
    (∃ target, h.resolve name = some target) ↔ ∃ n ∈ h.names, Text.lower n = Text.lower name := by
  simp [← Option.isSome_iff_exists, resolve_eq_find?]

/-- If names differ by more than case, a reference means every name that has its lower-case form. -/
theorem resolve_eq_some_iff (hn : (h.names.map Text.lower).Nodup) :
    h.resolve name = some target ↔
      target ∈ h.names ∧ Text.lower target = Text.lower name := by
  constructor
  · intro hr
    exact ⟨mem_names_of_resolve hr, lower_eq_of_resolve hr⟩
  · rintro ⟨hmem, hlower⟩
    obtain ⟨other, hr⟩ := resolve_isSome_iff.2 ⟨target, hmem, hlower⟩
    have heq : Text.lower other = Text.lower target := by rw [lower_eq_of_resolve hr, hlower]
    rw [hr, List.inj_on_of_nodup_map hn (mem_names_of_resolve hr) hmem heq]

/-! ## Groups -/

def sameCase (h : Hierarchy) (key : String) : List String :=
  h.names.filter fun n => Text.lower n == key

theorem length_sameCase (h : Hierarchy) (key : String) :
    (h.sameCase key).length = (h.names.map Text.lower).count key := by
  rw [sameCase, List.count, List.countP_map, List.countP_eq_length_filter]
  rfl

theorem caseGroups_eq (h : Hierarchy) :
    h.caseGroups = (Table.group Text.lower h.names).values.filter fun group => 1 < group.length :=
  rfl

theorem mem_caseGroups_iff {group : List String} :
    group ∈ h.caseGroups ↔ ∃ key, group = h.sameCase key ∧ 1 < group.length := by
  rw [caseGroups_eq, List.mem_filter, Table.mem_values_group_iff, decide_eq_true_iff]
  constructor
  · rintro ⟨⟨-, key, hkey⟩, hlen⟩
    exact ⟨key, hkey, hlen⟩
  · rintro ⟨key, hkey, hlen⟩
    exact ⟨⟨List.ne_nil_of_length_pos (Nat.zero_lt_of_lt hlen), key, hkey⟩, hlen⟩

theorem resolve_of_mem_caseGroups {group : List String} (hg : group ∈ h.caseGroups)
    (hn : name ∈ group) : h.resolve name = group.head? := by
  obtain ⟨key, rfl, -⟩ := mem_caseGroups_iff.1 hg
  obtain ⟨-, hkey⟩ := List.mem_filter.1 hn
  rw [resolve_eq_find?, sameCase, List.head?_filter, eq_of_beq hkey]

/-- The later names of a group do not mean themselves. -/
theorem notMem_tail_of_resolve {group : List String} (hg : group ∈ h.caseGroups)
    (hr : h.resolve name = some name) : name ∉ group.tail := by
  intro hn
  rw [resolve_of_mem_caseGroups hg (List.mem_of_mem_tail hn), List.head?_eq_some_iff] at hr
  obtain ⟨others, rfl⟩ := hr
  obtain ⟨key, hgroup, -⟩ := mem_caseGroups_iff.1 hg
  have hnodup : (name :: others).Nodup := hgroup ▸ h.decls.nodup.filter _
  exact (List.nodup_cons.1 hnodup).1 hn

theorem caseGroups_eq_nil_iff : h.caseGroups = [] ↔ (h.names.map Text.lower).Nodup := by
  rw [List.eq_nil_iff_forall_not_mem, List.nodup_iff_count_le_one]
  constructor
  · intro hnone key
    rw [← length_sameCase]
    exact Nat.not_lt.1 fun hlen => hnone _ (mem_caseGroups_iff.2 ⟨key, rfl, hlen⟩)
  · rintro hall group hg
    obtain ⟨key, rfl, hlen⟩ := mem_caseGroups_iff.1 hg
    rw [length_sameCase] at hlen
    exact absurd (hall key) (Nat.not_le.2 hlen)

end Hierarchy

end HierarchyLint
