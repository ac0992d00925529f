import HierarchyLint.Proofs.Table
import Mathlib.Data.List.Induction

/-!
# Groups of items

`group f items` lists the items under the keys that `f` gives them. The group of a key holds the
items with this key, in their order (`mem_entries_group_iff`), and all groups together hold every
item as often as the list does (`flatten_values_group_perm`). They stand in the order of their first
items (`heads_group_sublist`).
-/

namespace HierarchyLint.Table

variable {α β : Type} {f : α → String} {items : List α} {key : String}

theorem entries_push (t : Table (List α)) (key : String) (item : α) :
    (t.push key item).entries = alterEntries key (fun old => old.getD [] ++ [item]) t.entries :=
  rfl

/-- The items, each under its key, both in the order in which they come up. -/
def group (f : α → String) (items : List α) : Table (List α) :=
  items.foldl (fun t item => t.push (f item) item) empty

theorem group_concat (f : α → String) (items : List α) (item : α) :
    group f (items ++ [item]) = (group f items).push (f item) item := by
  rw [group, List.foldl_append]
  rfl

/-! ## The group of a key -/

theorem mem_keys_group_iff : key ∈ (group f items).keys ↔ ∃ item ∈ items, f item = key := by
  induction items using List.reverseRecOn with
  | nil => simp [group, empty, keys]
  | append_singleton items item ih =>
    rw [group_concat, push, keys_alter]
    split
    · rename_i hitem
      simp only [List.mem_append, List.mem_singleton, or_and_right, exists_or, exists_eq_left, ← ih]
      exact ⟨.inl, fun h => h.elim id fun h => h ▸ hitem⟩
    · simp [ih, or_and_right, exists_or, eq_comm]

theorem getD_get?_group (f : α → String) (items : List α) (key : String) :
    ((group f items).get? key).getD [] = items.filter fun item => f item == key := by
  induction items using List.reverseRecOn with
  | nil => rfl
  | append_singleton items item ih =>
    rw [group_concat, push, List.filter_append, ← ih]
    by_cases hk : f item = key
    · subst hk
      simp [get?_alter_self]
    · rw [get?_alter_ne _ (Ne.symm hk)]
      simp [hk]

/-- The groups are the non-empty lists of all items with one key. -/
theorem mem_entries_group_iff {members : List α} :
    (key, members) ∈ (group f items).entries ↔
      members ≠ [] ∧ members = items.filter fun item => f item == key := by
  have hget := getD_get?_group f items key
  rw [← get?_eq_some_iff]
  constructor
  · intro h
    rw [h, Option.getD_some] at hget
    obtain ⟨item, hitem, rfl⟩ := mem_keys_group_iff.1 (mem_keys_iff.2 ⟨members, h⟩)
    have hmem : item ∈ members := hget ▸ List.mem_filter.2 ⟨hitem, beq_self_eq_true _⟩
    exact ⟨List.ne_nil_of_mem hmem, hget⟩
  · rintro ⟨hne, rfl⟩
    cases h : (group f items).get? key with
    | none =>
      rw [h, Option.getD_none] at hget
      exact absurd hget.symm hne
    | some members =>
      rw [h, Option.getD_some] at hget
      rw [hget]

theorem mem_values_group_iff {members : List α} :
    members ∈ (group f items).values ↔
      members ≠ [] ∧ ∃ key, members = items.filter fun item => f item == key := by
  simp only [values, List.mem_map, Prod.exists, exists_eq_right, mem_entries_group_iff,
    exists_and_left]

/-! ## All groups -/

theorem flatten_alterEntries_perm (key : String) (item : α) (es : List (String × List α)) :
    ((alterEntries key (fun old => old.getD [] ++ [item]) es).map Prod.snd).flatten.Perm
      ((es.map Prod.snd).flatten ++ [item]) := by
  induction es with
  | nil => simp [alterEntries]
  | cons e es ih =>
    obtain ⟨k, members⟩ := e
    simp only [alterEntries, List.map_cons, List.flatten_cons]
    split
    · simp only [List.map_cons, List.flatten_cons, Option.getD_some, List.append_assoc]
      exact List.perm_append_comm.append_left members
    · simp only [List.map_cons, List.flatten_cons, List.append_assoc]
      exact ih.append_left members

theorem flatten_values_group_perm (f : α → String) (items : List α) :
    (group f items).values.flatten.Perm items := by
  induction items using List.reverseRecOn with
  | nil => rfl
  | append_singleton items item ih =>
    rw [group_concat]
    exact (flatten_alterEntries_perm (f item) item _).trans (ih.append_right [item])

theorem entries_group_eq_nil_iff : (group f items).entries = [] ↔ items = [] := by
  constructor
  · intro h
    have hperm := flatten_values_group_perm f items
    rw [values, h] at hperm
    exact hperm.symm.eq_nil
  · rintro rfl
    rfl

theorem alterEntries_map {F : Option α → α} {G : Option β → β} {g : α → β}
    (h : ∀ old, G (old.map g) = g (F old)) (key : String) (es : List (String × α)) :
    alterEntries key G (es.map fun e => (e.1, g e.2))
      = (alterEntries key F es).map fun e => (e.1, g e.2) := by
  induction es with
  | nil => exact congrArg (fun b => [(key, b)]) (h none)
  | cons e es ih =>
    simp only [List.map_cons, alterEntries, ih]
    split
    · rw [List.map_cons, ← h]
      rfl
    · rw [List.map_cons]

theorem entries_group_map (f : β → String) (g : α → β) (items : List α) :
    (group f (items.map g)).entries
      = (group (fun item => f (g item)) items).entries.map fun e => (e.1, e.2.map g) := by
  induction items using List.reverseRecOn with
  | nil => rfl
  | append_singleton items item ih =>
    rw [List.map_append, List.map_singleton, group_concat, group_concat, entries_push,
      entries_push, ih]
    refine alterEntries_map (fun old => ?_) _ _
    cases old <;> simp

theorem values_group_map (f : β → String) (g : α → β) (items : List α) :
    (group f (items.map g)).values
      = (group (fun item => f (g item)) items).values.map (List.map g) := by
  rw [values, entries_group_map, values, List.map_map, List.map_map]
  rfl

/-- Without the group of a key, the groups are those of the items with other keys. -/
theorem entries_group_filter (f : α → String) (key : String) (items : List α) :
    (group f items).entries.filter (fun e => e.1 ≠ key)
      = (group f (items.filter fun item => f item ≠ key)).entries := by
  induction items using List.reverseRecOn with
  | nil => rfl
  | append_singleton items item ih =>
    rw [group_concat, entries_push, List.filter_append]
    by_cases hk : f item = key
    · subst hk
      have hnone : [item].filter (fun other => f other ≠ f item) = [] := by simp
      rw [hnone, List.append_nil, filter_alterEntries_self, ih]
    · have hself : [item].filter (fun other => f other ≠ key) = [item] := by simp [hk]
      rw [hself, group_concat, entries_push, filter_alterEntries_ne hk, ih]

/-! ## The order of groups -/

/-- An item comes first in its group exactly if its key is new. -/
theorem heads_alterEntries (key : String) (item : α) {es : List (String × List α)}
    (hes : ∀ e ∈ es, e.2 ≠ []) :
    ((alterEntries key (fun old => old.getD [] ++ [item]) es).map Prod.snd).filterMap List.head?
      = (es.map Prod.snd).filterMap List.head?
        ++ if key ∈ es.map Prod.fst then [] else [item] := by
  induction es with
  | nil => rfl
  | cons e es ih =>
    obtain ⟨k, members⟩ := e
    obtain ⟨hne, hrest⟩ := List.forall_mem_cons.1 hes
    cases members with
    | nil => exact absurd rfl hne
    | cons first others =>
      by_cases hk : k = key
      · simp [alterEntries, hk]
      · have hk' : key ≠ k := fun heq => hk heq.symm
        simp only [alterEntries, if_neg hk, List.map_cons, List.filterMap_cons, List.head?_cons,
          ih hrest, List.mem_cons, hk', false_or, List.cons_append]

theorem heads_group_sublist (f : α → String) (items : List α) :
    ((group f items).values.filterMap List.head?).Sublist items := by
  induction items using List.reverseRecOn with
  | nil => exact .slnil
  | append_singleton items item ih =>
    have hne : ∀ e ∈ (group f items).entries, e.2 ≠ [] :=
      fun e he => (mem_entries_group_iff.1 he).1
    rw [group_concat, values, entries_push, heads_alterEntries _ _ hne]
    refine ih.append ?_
    split
    · exact List.nil_sublist _
    · exact List.Sublist.refl _

end HierarchyLint.Table
