import HierarchyLint.Proofs.Graph.Reports
import HierarchyLint.Proofs.OccursOnce

/-!
# Rings

A graph is one of rings if in every component with a cycle each type has just one edge that stays in
the component. Whoever stays there goes round the ring, so each cycle passes the whole of its
component. The search through the graph reports every ring once, wherever it enters it and however
often it comes back: the way back that belongs to a later report of the ring would go along the edge
that closed the earlier one (`ClosesInTurn.pairwise_not_connected`).
-/

namespace HierarchyLint

open Relation (ReflTransGen TransGen)

variable {g : Graph} {u v m n : String} {e f : Edge} {es : List Edge} {r s : CycleReport}
  {o : String × Nat} {closing : List (String × Nat)} {reports : List CycleReport}

namespace Graph

/-- Every component with a cycle is a ring: each of its types has one edge that stays in it. -/
def Rings (g : Graph) : Prop :=
  ∀ n, g.OnCycle n → OccursOnce (fun e => g.Connected n e.target) (g.successors n)

/-! ## Edges of a component -/

theorem connected_target (he : e ∈ g.successors n) (hback : ReflTransGen g.Leads e.target n) :
    g.Connected n e.target :=
  ⟨.single ⟨e, he, rfl⟩, hback⟩

/-- A walk leaves each type that it passes, except the one where it ends. -/
theorem Walk.exists_leaving (h : g.Walk u es v) (hm : m ∈ u :: es.map Edge.target) :
    m = v ∨ ∃ e ∈ es, e ∈ g.successors m := by
  induction h with
  | nil => exact .inl (List.mem_singleton.1 hm)
  | cons he _ ih =>
    rcases List.mem_cons.1 hm with rfl | hm
    · exact .inr ⟨_, List.mem_cons_self .., he⟩
    · refine (ih hm).imp id ?_
      rintro ⟨f, hf, hsucc⟩
      exact ⟨f, List.mem_cons_of_mem _ hf, hsucc⟩

end Graph

/-! ## Cycles in a ring -/

namespace CycleReport.Traces

theorem exists_leaving (h : r.Traces g es) (hm : m ∈ es.map Edge.target) :
    ∃ e ∈ es, e ∈ g.successors m := by
  rcases h.walk.exists_leaving (List.mem_cons_of_mem _ hm) with rfl | hleave
  · cases h.walk with
    | nil => exact absurd rfl h.ne_nil
    | cons he _ => exact ⟨_, List.mem_cons_self .., he⟩
  · exact hleave

end CycleReport.Traces

namespace Graph

theorem Rings.place_eq (hg : g.Rings) {i j : Nat} (hi : (g.successors n)[i]? = some e)
    (hj : (g.successors n)[j]? = some f) (he : g.Connected n e.target)
    (hf : g.Connected n f.target) : i = j := by
  have hn : g.OnCycle n := .head' ⟨e, List.mem_of_getElem? hi, rfl⟩ he.2
  exact (hg n hn).unique hi hj he hf

theorem Rings.edge_eq (hg : g.Rings) (he : e ∈ g.successors n) (hf : f ∈ g.successors n)
    (hne : g.Connected n e.target) (hnf : g.Connected n f.target) : e = f := by
  obtain ⟨i, hi⟩ := List.mem_iff_getElem?.1 he
  obtain ⟨j, hj⟩ := List.mem_iff_getElem?.1 hf
  obtain rfl := hg.place_eq hi hj hne hnf
  exact Option.some.inj (hi.symm.trans hj)

/-- A cycle passes the types of its component and no others. -/
theorem Rings.mem_targets_iff (hg : g.Rings) (ht : r.Traces g es) :
    m ∈ es.map Edge.target ↔ g.Connected r.typeName m := by
  constructor
  · exact ht.connected
  · rintro ⟨hrm, hmr⟩
    -- along the way to `m`, each type is on the cycle: its one edge that stays is the cycle's
    induction hrm with
    | refl => exact ht.typeName_mem
    | @tail b c _ hbc ih =>
      have hb := ih (.head hbc hmr)
      obtain ⟨f, hf, rfl⟩ := hbc
      obtain ⟨e, he, hsucc⟩ := ht.exists_leaving hb
      have hmem : e.target ∈ es.map Edge.target := List.mem_map_of_mem he
      have hcycle := (ht.connected hb).symm.trans (ht.connected hmem)
      have hway := connected_target hf (hmr.trans (ht.connected hb).1)
      rwa [hg.edge_eq hf hsucc hway hcycle]

/-! ## One report for each ring -/

theorem Closes.exists_inner (h : g.Closes o r) :
    ∃ e, (g.successors o.1)[o.2]? = some e ∧ g.Connected o.1 e.target ∧
      g.Connected r.typeName o.1 := by
  obtain ⟨e, es, he, htarget, -, hw, -⟩ := h
  have hinner := connected_target (List.mem_of_getElem? he) (htarget ▸ hw.reaches)
  exact ⟨e, he, hinner, htarget ▸ hinner.symm⟩

/-- The edge along which the cycle of a report leaves a type of its ring closes this cycle, or it
has closed none. -/
theorem ClosesAfter.exists_leaving (h : g.ClosesAfter closing o r) (hg : g.Rings)
    (hm : g.Connected r.typeName m) :
    ∃ i e, (g.successors m)[i]? = some e ∧ g.Connected m e.target ∧
      ((m, i) ∈ closing → (m, i) = o) := by
  obtain ⟨e, es, he, htarget, -, hw, ht⟩ := h
  have hpassed : m ∈ r.typeName :: es.map Edge.target := by
    have hmem := (hg.mem_targets_iff ht).2 hm
    rw [List.map_append, List.map_singleton, htarget] at hmem
    exact (List.perm_append_singleton _ _).mem_iff.1 hmem
  rcases hw.exists_leaving hpassed with rfl | ⟨f, hf, hsucc⟩
  · exact ⟨o.2, e, he, connected_target (List.mem_of_getElem? he) (htarget ▸ hm.1), fun _ => rfl⟩
  · obtain ⟨i, hi, hfree⟩ := mem_successors_without_iff.1 hsucc
    have hmem : f.target ∈ (es ++ [e]).map Edge.target :=
      List.mem_map_of_mem (List.mem_append_left _ hf)
    exact ⟨i, f, hi, hm.symm.trans (ht.connected hmem), fun hc => absurd hc hfree⟩

/-- No two reports are about one ring. -/
theorem ClosesInTurn.pairwise_not_connected (h : g.ClosesInTurn closing reports)
    (hnodup : closing.Nodup) (hg : g.Rings) :
    reports.Pairwise fun r s => ¬ g.Connected r.typeName s.typeName := by
  induction h with
  | nil => exact .nil
  | @concat closing reports o s hturn hs ih =>
    obtain ⟨hnew, hnodup⟩ :=
      List.nodup_cons.1 ((List.perm_append_singleton o closing).nodup_iff.1 hnodup)
    refine List.pairwise_append.2 ⟨ih hnodup, List.pairwise_singleton .., fun r hr s' hs' hrs => ?_⟩
    obtain rfl := List.mem_singleton.1 hs'
    obtain ⟨p, hp, hcloses⟩ := (exists_closes hturn.closes).2 r hr
    obtain ⟨e, he, hinner, hrp⟩ := hcloses.exists_inner
    obtain ⟨i, f, hf, hinner', hfree⟩ := hs.exists_leaving hg (hrs.symm.trans hrp)
    obtain rfl : p.2 = i := hg.place_eq he hf hinner hinner'
    exact hnew (hfree hp ▸ hp)

/-- In a graph of rings there is one report for each ring, and with reports for each member there is
one for each type of a ring. Whichever way of reporting, every report is about a ring and spells the
cycle that passes each of its types once. -/
theorem rings_are_reported_once (hg : g.Rings) :
    (∀ n, g.OnCycle n → OccursOnce (fun r => g.Connected n r.typeName) (g.cycles .firstFound)) ∧
    (∀ n, g.OnCycle n → OccursOnce (fun r => r.typeName = n) (g.cycles .perMember)) ∧
    ∀ mode, ∀ r ∈ g.cycles mode, g.OnCycle r.typeName ∧
      ∃ es, r.Traces g es ∧ ∀ m, m ∈ es.map Edge.target ↔ g.Connected r.typeName m := by
  refine ⟨fun n hn => ?_, fun n hn => ?_, fun mode r hr => ?_⟩
  · obtain ⟨closing, hnodup, hturn, -⟩ := g.exists_closing_in_turn
    obtain ⟨r, hr, es, ht, hconn⟩ := exists_report_connected hn
    refine occursOnce_of_pairwise ?_ ⟨r, hr, hconn _ ht.typeName_mem⟩
    exact (hturn.pairwise_not_connected hnodup hg).imp
      fun hno hboth => hno (hboth.1.symm.trans hboth.2)
  · refine occursOnce_of_pairwise ?_ (exists_perMember_iff.2 hn)
    exact (List.pairwise_map.1 g.nodup_typeName_perMember).imp
      fun hne hboth => hne (hboth.1.trans hboth.2.symm)
  · obtain ⟨es, ht⟩ := traces_of_mem_cycles hr
    exact ⟨ht.onCycle, es, ht, fun m => hg.mem_targets_iff ht⟩

/-- If a rank never rises along an edge and at most one edge of a type keeps it, the graph is one of
rings. -/
theorem rings_of_rank (rank : String → Nat)
    (hrank : ∀ p ∈ g.edges.entries, (∀ e ∈ p.2, rank e.target ≤ rank p.1) ∧
      p.2.Pairwise fun e f => ¬ (rank e.target = rank p.1 ∧ rank f.target = rank p.1)) :
    g.Rings := by
  have hentry : ∀ {n e}, e ∈ g.successors n → (n, g.successors n) ∈ g.edges.entries := by
    intro n e he
    obtain ⟨es, hes⟩ := mem_nodes_iff.1 (mem_nodes_of_mem_successors he)
    rwa [successors_eq_of_mem hes]
  have hfalls : ∀ {u v}, ReflTransGen g.Leads u v → rank v ≤ rank u := by
    intro u v huv
    induction huv with
    | refl => exact Nat.le_refl _
    | tail _ hlast ih =>
      obtain ⟨e, he, rfl⟩ := hlast
      exact Nat.le_trans ((hrank _ (hentry he)).1 e he) ih
  intro n hn
  obtain ⟨_, ⟨e, he, rfl⟩, hback⟩ := TransGen.head'_iff.1 hn
  refine occursOnce_of_pairwise ?_ ⟨e, he, connected_target he hback⟩
  refine (hrank _ (hentry he)).2.imp fun hno ⟨hne, hnf⟩ => hno ⟨?_, ?_⟩
  · exact Nat.le_antisymm (hfalls hne.1) (hfalls hne.2)
  · exact Nat.le_antisymm (hfalls hnf.1) (hfalls hnf.2)

/-- A ring of three types that is entered at each of them, a second ring that both the first one and
the root lead to, and a type that leads to itself. -/
def threeRings : Graph :=
  ⟨.ofList [
    ("root", [⟨"b", "b"⟩, ⟨"x", "x"⟩, ⟨"a", "a"⟩]),
    ("a", [⟨"x", "x"⟩, ⟨"b", "b"⟩]), ("b", [⟨"c", "c"⟩]), ("c", [⟨"a", "a"⟩, ⟨"y", "y"⟩]),
    ("x", [⟨"y", "y"⟩]), ("y", [⟨"s", "s"⟩, ⟨"x", "x"⟩, ⟨"gone", "gone"⟩]), ("s", [⟨"s", "s"⟩]),
    ("late", [⟨"c", "c"⟩, ⟨"root", "root"⟩])]⟩

/-- The place of a type's component among those of `threeRings`, from the end. -/
def threeRingsRank (n : String) : Nat :=
  if n = "late" then 5 else if n = "root" then 4 else if n ∈ ["a", "b", "c"] then 3
  else if n ∈ ["x", "y"] then 2 else if n = "s" then 1 else 0

theorem threeRings_are_reported_once :
    threeRings.Rings ∧ threeRings.OnCycle "a" ∧
    OccursOnce (fun r => threeRings.Connected "a" r.typeName) (threeRings.cycles .firstFound) ∧
    OccursOnce (fun r => r.typeName = "a") (threeRings.cycles .perMember) ∧
    (threeRings.cycles .firstFound).map CycleReport.typeName = ["s", "x", "b"] ∧
    (threeRings.cycles .perMember).map CycleReport.typeName = ["a", "b", "c", "x", "y", "s"] := by
  have hrings : threeRings.Rings := rings_of_rank threeRingsRank (by decide +kernel)
  have ha : threeRings.OnCycle "a" := by decide +kernel
  have honce := rings_are_reported_once hrings
  exact ⟨hrings, ha, honce.1 "a" ha, honce.2.1 "a" ha, by decide +kernel, by decide +kernel⟩

end Graph

end HierarchyLint
