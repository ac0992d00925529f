import HierarchyLint.Proofs.Graph.Walk
import Mathlib.Data.List.Forall2

/-!
# The ledger of a depth-first search

A search keeps no account of the edges that it has examined. `Ledger` is what such an account would
say between two steps: each type on the path has examined the edges in front of its pending ones, a
visited type off the path has examined all of them, and no type has examined anything before it was
visited. A search has three moves, and each of them keeps the ledger: it puts a type that was not
visited on its stack (`push`), takes the next edge off it (`examine`), or drops a type that has no
edge left (`leave`). So no edge is examined twice, and once the path is empty, all edges of the
visited types have been examined.
-/

namespace HierarchyLint.Graph

variable {g : Graph} {n : String} {i : Nat} {e : Edge} {es : List Edge} {o : String × Nat}
  {visited path : List String} {pending below : List (List Edge)}
  {examined examined' : List (String × Nat)}

/-- The edges are those of the type that are not examined yet: the examined ones are all those in
front of them. -/
def Unexamined (g : Graph) (examined : List (String × Nat)) (n : String) (es : List Edge) : Prop :=
  ∃ done, g.successors n = done ++ es ∧ ∀ i, (n, i) ∈ examined ↔ i < done.length

def next? (g : Graph) : List String → List (List Edge) → Option (String × Nat)
  | n :: _, (_ :: es) :: _ => some (n, (g.successors n).length - (es.length + 1))
  | _, _ => none

theorem Unexamined.congr (h : g.Unexamined examined n es)
    (hn : ∀ i, (n, i) ∈ examined' ↔ (n, i) ∈ examined) : g.Unexamined examined' n es := by
  obtain ⟨done, hs, hdone⟩ := h
  exact ⟨done, hs, fun i => (hn i).trans (hdone i)⟩

theorem unexamined_successors (h : ∀ i, (n, i) ∉ examined) :
    g.Unexamined examined n (g.successors n) :=
  ⟨[], rfl, fun i => iff_of_false (h i) (Nat.not_lt_zero i)⟩

theorem Unexamined.mem_of_nil (h : g.Unexamined examined n []) (hi : i < (g.successors n).length) :
    (n, i) ∈ examined := by
  obtain ⟨done, hs, hdone⟩ := h
  rw [hs, List.append_nil] at hi
  exact (hdone i).2 hi

/-- The edge on top of the stack stands at its occurrence, which is not examined yet. -/
theorem Unexamined.exists_next (h : g.Unexamined examined n (e :: es)) (path : List String)
    (below : List (List Edge)) :
    ∃ i, g.next? (n :: path) ((e :: es) :: below) = some (n, i) ∧ (g.successors n)[i]? = some e ∧
      (n, i) ∉ examined ∧ g.Unexamined ((n, i) :: examined) n es := by
  obtain ⟨done, hs, hdone⟩ := h
  refine ⟨done.length, ?_, by simp [hs], fun h => Nat.lt_irrefl _ ((hdone _).1 h), done ++ [e],
    by simp [hs], fun i => ?_⟩
  · simp [next?, hs]
  · rw [List.mem_cons, hdone, Prod.mk.injEq, List.length_append, List.length_singleton]
    simp only [true_and]
    omega

/-- What the examined edges are, between two steps of a search. -/
structure Ledger (g : Graph) (visited path : List String) (pending : List (List Edge))
    (examined : List (String × Nat)) : Prop where
  visited_nodup : visited.Nodup
  path_nodup : path.Nodup
  path_visited : path ⊆ visited
  pending : List.Forall₂ (g.Unexamined examined) path pending
  off_path : ∀ n ∈ visited, n ∉ path → ∀ i < (g.successors n).length, (n, i) ∈ examined
  examined_nodup : examined.Nodup
  examined_visited : ∀ n i, (n, i) ∈ examined → n ∈ visited ∧ i < (g.successors n).length

namespace Ledger

theorem init (g : Graph) : g.Ledger [] [] [] [] where
  visited_nodup := List.nodup_nil
  path_nodup := List.nodup_nil
  path_visited := List.nil_subset _
  pending := .nil
  off_path := fun _ hn => absurd hn List.not_mem_nil
  examined_nodup := List.nodup_nil
  examined_visited := fun _ _ hi => absurd hi List.not_mem_nil

theorem path_eq_nil (L : g.Ledger visited path [] examined) : path = [] := by
  cases L.pending
  rfl

theorem exists_path (L : g.Ledger visited path (es :: below) examined) :
    ∃ n rest, path = n :: rest := by
  cases L.pending
  exact ⟨_, _, rfl⟩

theorem push (L : g.Ledger visited path pending examined) (hn : n ∉ visited) :
    g.Ledger (n :: visited) (n :: path) (g.successors n :: pending) examined where
  visited_nodup := List.nodup_cons.2 ⟨hn, L.visited_nodup⟩
  path_nodup := List.nodup_cons.2 ⟨fun h => hn (L.path_visited h), L.path_nodup⟩
  path_visited := List.cons_subset_cons n L.path_visited
  pending := .cons (unexamined_successors fun i hi => hn (L.examined_visited n i hi).1) L.pending
  off_path := by
    intro m hm hoff
    rw [List.mem_cons, not_or] at hoff
    exact L.off_path m ((List.mem_cons.1 hm).resolve_left hoff.1) hoff.2
  examined_nodup := L.examined_nodup
  examined_visited := fun m i hi =>
    ⟨List.mem_cons_of_mem n (L.examined_visited m i hi).1, (L.examined_visited m i hi).2⟩

theorem examine (L : g.Ledger visited path ((e :: es) :: below) examined) :
    ∃ o, g.next? path ((e :: es) :: below) = some o ∧ o ∉ examined ∧
      g.Ledger visited path (es :: below) (o :: examined) := by
  obtain ⟨n, path, rfl⟩ := L.exists_path
  obtain ⟨hn, hbelow⟩ := List.forall₂_cons.1 L.pending
  obtain ⟨i, hnext, he, hnew, hes⟩ := hn.exists_next path below
  obtain ⟨hi, -⟩ := List.getElem?_eq_some_iff.1 he
  have hnodup := List.nodup_cons.1 L.path_nodup
  refine ⟨(n, i), hnext, hnew, L.visited_nodup, L.path_nodup, L.path_visited, ?_, ?_, ?_, ?_⟩
  · -- the other types of the path have examined nothing in the meantime
    have hother : ∀ m ∈ path, m ≠ n := fun m hm h => hnodup.1 (h ▸ hm)
    refine .cons hes (((List.forall₂_and_left _ _).2 ⟨hother, hbelow⟩).imp ?_)
    rintro m fs ⟨hne, hfs⟩
    refine hfs.congr fun j => ?_
    rw [List.mem_cons, Prod.mk.injEq, or_iff_right fun h => hne h.1]
  · exact fun m hm hoff j hj => List.mem_cons_of_mem _ (L.off_path m hm hoff j hj)
  · exact List.nodup_cons.2 ⟨hnew, L.examined_nodup⟩
  · intro m j hj
    rcases List.mem_cons.1 hj with heq | hj
    · obtain ⟨rfl, rfl⟩ := Prod.mk.inj heq
      exact ⟨L.path_visited (List.mem_cons_self ..), hi⟩
    · exact L.examined_visited m j hj

theorem leave (L : g.Ledger visited path ([] :: below) examined) :
    g.Ledger visited path.tail below examined := by
  obtain ⟨n, path, rfl⟩ := L.exists_path
  obtain ⟨hn, hbelow⟩ := List.forall₂_cons.1 L.pending
  refine ⟨L.visited_nodup, L.path_nodup.tail, ?_, hbelow, fun m hm hoff j hj => ?_,
    L.examined_nodup, L.examined_visited⟩
  · exact List.subset_of_cons_subset L.path_visited
  · by_cases hmn : m = n
    · exact hmn ▸ hn.mem_of_nil (hmn ▸ hj)
    · exact L.off_path m hm (by simpa [hmn] using hoff) j hj

theorem next_notMem (L : g.Ledger visited path pending examined)
    (ho : g.next? path pending = some o) : o ∉ examined := by
  match pending, L with
  | [], L => rw [L.path_eq_nil] at ho; cases ho
  | [] :: below, L => obtain ⟨n, path, rfl⟩ := L.exists_path; cases ho
  | (e :: es) :: below, L =>
    obtain ⟨o', ho', hnew, -⟩ := L.examine
    rwa [Option.some.inj (ho.symm.trans ho')]

theorem fresh (L : g.Ledger visited path pending examined) :
    ((g.next? path pending).toList ++ examined).Nodup := by
  cases ho : g.next? path pending with
  | none => exact L.examined_nodup
  | some o => exact List.nodup_cons.2 ⟨L.next_notMem ho, L.examined_nodup⟩

/-! ## The end of a search -/

theorem mem_examined_iff (L : g.Ledger visited [] [] examined) (hnodes : g.nodes ⊆ visited) :
    (n, i) ∈ examined ↔ i < (g.successors n).length := by
  refine ⟨fun h => (L.examined_visited n i h).2, fun hi => ?_⟩
  have hn : n ∈ g.nodes := mem_nodes_of_mem_successors (List.getElem_mem hi)
  exact L.off_path n (hnodes hn) List.not_mem_nil i hi

/-- Every edge was examined once, and nothing else was. -/
theorem count_examined (L : g.Ledger visited [] [] examined) (hnodes : g.nodes ⊆ visited)
    (n : String) (i : Nat) :
    examined.count (n, i) = if i < (g.successors n).length then 1 else 0 := by
  split
  · rename_i hi
    exact List.count_eq_one_of_mem L.examined_nodup ((L.mem_examined_iff hnodes).2 hi)
  · rename_i hi
    exact List.count_eq_zero.2 fun h => hi ((L.mem_examined_iff hnodes).1 h)

theorem length_examined (L : g.Ledger visited [] [] examined) (hnodes : g.nodes ⊆ visited) :
    examined.length = g.edgeCount := by
  have hperm : examined.Perm g.occurrences := by
    rw [List.perm_ext_iff_of_nodup L.examined_nodup g.nodup_occurrences]
    rintro ⟨n, i⟩
    rw [L.mem_examined_iff hnodes, mem_occurrences_iff]
  rw [hperm.length_eq, length_occurrences]

end Ledger

end HierarchyLint.Graph
