import Mathlib.Data.List.Basic

/-!
# Items that occur once

A list may hold equal items, so a statement that there is exactly one of some kind counts places.
-/

namespace HierarchyLint

variable {α : Type} {p : α → Prop} {l : List α}

/-- Exactly one place of the list holds an item with the property. -/
def OccursOnce (p : α → Prop) (l : List α) : Prop := ∃! i : Nat, ∃ a, l[i]? = some a ∧ p a

theorem OccursOnce.exists (h : OccursOnce p l) : ∃ a ∈ l, p a := by
  obtain ⟨i, ⟨a, ha, hp⟩, -⟩ := h
  exact ⟨a, List.mem_of_getElem? ha, hp⟩

theorem OccursOnce.unique (h : OccursOnce p l) {i j : Nat} {a b : α} (ha : l[i]? = some a)
    (hb : l[j]? = some b) (hpa : p a) (hpb : p b) : i = j :=
  ExistsUnique.unique h ⟨a, ha, hpa⟩ ⟨b, hb, hpb⟩

/-- There is one item with the property, and no two places hold such items. -/
theorem occursOnce_of_pairwise (hpair : l.Pairwise fun a b => ¬ (p a ∧ p b))
    (hex : ∃ a ∈ l, p a) : OccursOnce p l := by
  obtain ⟨a, ha, hpa⟩ := hex
  obtain ⟨i, hi⟩ := List.mem_iff_getElem?.1 ha
  refine ⟨i, ⟨a, hi, hpa⟩, ?_⟩
  rintro j ⟨b, hj, hpb⟩
  obtain ⟨hilt, hai⟩ := List.getElem?_eq_some_iff.1 hi
  obtain ⟨hjlt, hbj⟩ := List.getElem?_eq_some_iff.1 hj
  rcases Nat.lt_trichotomy j i with hlt | heq | hgt
  · exact absurd ⟨hbj ▸ hpb, hai ▸ hpa⟩ (List.pairwise_iff_getElem.1 hpair j i hjlt hilt hlt)
  · exact heq
  · exact absurd ⟨hai ▸ hpa, hbj ▸ hpb⟩ (List.pairwise_iff_getElem.1 hpair i j hilt hjlt hgt)

end HierarchyLint
