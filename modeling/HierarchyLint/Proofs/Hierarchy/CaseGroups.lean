import HierarchyLint.Proofs.Hierarchy.Naming
import Mathlib.Data.List.Flatten
import Mathlib.Data.List.Perm.Subperm

/-!
# Classes of names without case

Having one lower-case form divides the declared names into classes. Two tables describe them, each
built from the names in turn: `resolve` looks up the first name of a class, and `caseGroups` keeps
the classes of two or more names. Main statement: they are the same classes, the groups stand in the
order of their first names, and a name in no group is a class by itself.
-/

namespace HierarchyLint.Hierarchy

variable {h : Hierarchy} {name target : String} {group : List String}

/-- A reference means the first name of its class. -/
theorem resolve_eq_some_iff_first : h.resolve name = some target ↔
    ∃ before after, h.names = before ++ target :: after ∧
      Text.lower target = Text.lower name ∧ ∀ n ∈ before, Text.lower n ≠ Text.lower name := by
  rw [resolve_eq_find?, List.find?_eq_some_iff_append]
  simp only [beq_iff_eq, Bool.not_eq_true', beq_eq_false_iff_ne, ne_eq]
  constructor
  · rintro ⟨hlower, before, after, hnames, hbefore⟩
    exact ⟨before, after, hnames, hlower, hbefore⟩
  · rintro ⟨before, after, hnames, hlower, hbefore⟩
    exact ⟨hlower, before, after, hnames, hbefore⟩

theorem resolve_eq_none_iff :
    h.resolve name = none ↔ ∀ n ∈ h.names, Text.lower n ≠ Text.lower name := by
  simp [resolve_eq_find?]

/-! ## The classes that are groups -/

theorem mem_sameCase_iff {key : String} :
    name ∈ h.sameCase key ↔ name ∈ h.names ∧ Text.lower name = key := by
  rw [sameCase, List.mem_filter, beq_iff_eq]

theorem ne_nil_of_mem_caseGroups (hg : group ∈ h.caseGroups) : group ≠ [] := by
  obtain ⟨-, -, hlen⟩ := mem_caseGroups_iff.1 hg
  exact List.ne_nil_of_length_pos (Nat.zero_lt_of_lt hlen)

theorem eq_sameCase_of_mem (hg : group ∈ h.caseGroups) (hn : name ∈ group) :
    group = h.sameCase (Text.lower name) := by
  obtain ⟨key, rfl, -⟩ := mem_caseGroups_iff.1 hg
  rw [(mem_sameCase_iff.1 hn).2]

theorem mem_caseGroups_iff_class : group ∈ h.caseGroups ↔
    1 < group.length ∧ ∃ n ∈ h.names, group = h.sameCase (Text.lower n) := by
  constructor
  · intro hg
    obtain ⟨n, hn⟩ := List.exists_mem_of_ne_nil group (ne_nil_of_mem_caseGroups hg)
    obtain ⟨key, rfl, hlen⟩ := mem_caseGroups_iff.1 hg
    exact ⟨hlen, n, (mem_sameCase_iff.1 hn).1, eq_sameCase_of_mem hg hn⟩
  · rintro ⟨hlen, n, -, rfl⟩
    exact mem_caseGroups_iff.2 ⟨_, rfl, hlen⟩

theorem sameCase_mem_caseGroups (hn : name ∈ h.names) (ht : target ∈ h.names) (hne : name ≠ target)
    (hl : Text.lower name = Text.lower target) : h.sameCase (Text.lower name) ∈ h.caseGroups := by
  have hmem : ∀ m ∈ [name, target], m ∈ h.sameCase (Text.lower name) := by
    simp [mem_sameCase_iff, hn, ht, hl]
  have hlen : [name, target].length ≤ (h.sameCase (Text.lower name)).length :=
    (List.Nodup.subperm (by simpa using hne) hmem).length_le
  exact mem_caseGroups_iff.2 ⟨_, rfl, hlen⟩

theorem sameCase_eq_singleton (hn : name ∈ h.names) (hnone : ∀ g ∈ h.caseGroups, name ∉ g) :
    h.sameCase (Text.lower name) = [name] := by
  have hmem : name ∈ h.sameCase (Text.lower name) := mem_sameCase_iff.2 ⟨hn, rfl⟩
  have hlen : ¬ 1 < (h.sameCase (Text.lower name)).length :=
    fun hlen => hnone _ (mem_caseGroups_iff.2 ⟨_, rfl, hlen⟩) hmem
  have hpos := List.length_pos_of_mem hmem
  obtain ⟨m, hm⟩ := List.length_eq_one_iff.1 (Nat.le_antisymm (Nat.not_lt.1 hlen) hpos)
  rw [hm] at hmem ⊢
  rw [List.mem_singleton.1 hmem]

/-! ## The order of the groups -/

theorem heads_caseGroups_sublist (h : Hierarchy) :
    (h.caseGroups.filterMap List.head?).Sublist h.names := by
  rw [caseGroups_eq]
  exact (List.filter_sublist.filterMap _).trans (Table.heads_group_sublist _ _)

theorem nodup_flatten_caseGroups (h : Hierarchy) : h.caseGroups.flatten.Nodup := by
  have hall := (Table.flatten_values_group_perm Text.lower h.names).nodup_iff.2 h.decls.nodup
  rw [caseGroups_eq]
  exact hall.sublist List.filter_sublist.flatten

theorem nodup_caseGroups (h : Hierarchy) : h.caseGroups.Nodup := by
  have hdisjoint := (List.nodup_flatten.1 h.nodup_flatten_caseGroups).2
  refine hdisjoint.imp_of_mem fun {g _} hg _ hgk => ?_
  rintro rfl
  obtain ⟨n, hn⟩ := List.exists_mem_of_ne_nil g (ne_nil_of_mem_caseGroups hg)
  exact hgk hn hn

/-- A reference means the first declared name with its lower-case form, and nothing exactly if there
is none. The groups are the classes of two or more names with one lower-case form: each of them
once, with its names in the order of their declaration, and all of them in the order of their first
names. So no name is in two groups, every name of a group means the first one, and a declared name
in no group means itself. -/
theorem resolve_and_caseGroups_share_classes (h : Hierarchy) :
    (∀ name target, h.resolve name = some target ↔
      ∃ before after, h.names = before ++ target :: after ∧
        Text.lower target = Text.lower name ∧ ∀ n ∈ before, Text.lower n ≠ Text.lower name) ∧
    (∀ name, h.resolve name = none ↔ ∀ n ∈ h.names, Text.lower n ≠ Text.lower name) ∧
    (∀ group, group ∈ h.caseGroups ↔ 1 < group.length ∧
      ∃ n ∈ h.names, group = h.names.filter fun m => Text.lower m == Text.lower n) ∧
    h.caseGroups.Nodup ∧
    h.names.Nodup ∧ (h.caseGroups.filterMap List.head?).Sublist h.names ∧
    h.caseGroups.flatten.Nodup ∧
    (∀ group ∈ h.caseGroups, ∀ n ∈ group, h.resolve n = group.head?) ∧
    (∀ n ∈ h.names, (∀ group ∈ h.caseGroups, n ∉ group) → h.resolve n = some n) := by
  refine ⟨fun name target => resolve_eq_some_iff_first, fun name => resolve_eq_none_iff,
    fun group => mem_caseGroups_iff_class, h.nodup_caseGroups, h.decls.nodup,
    h.heads_caseGroups_sublist, h.nodup_flatten_caseGroups,
    fun group hg n hn => resolve_of_mem_caseGroups hg hn, fun n hn hnone => ?_⟩
  rw [resolve_eq_find?, ← List.head?_filter]
  exact congrArg List.head? (sameCase_eq_singleton hn hnone)

/-- The group of `b` stands first, though that of `A` has its second name earlier. -/
example : (Hierarchy.ofEntries [(.str "b", .null), (.str "A", .null), (.str "a", .null),
    (.str "c", .null), (.str "B", .null)]).caseGroups = [["b", "B"], ["A", "a"]] := by
  decide +kernel

end HierarchyLint.Hierarchy
