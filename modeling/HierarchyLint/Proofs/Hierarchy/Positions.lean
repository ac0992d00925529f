import HierarchyLint.Proofs.Hierarchy.Declared
import HierarchyLint.Proofs.Table.Grouping
import Mathlib.Data.List.Dedup

/-!
# Keys by position

Two keys of a mapping may look alike, so a statement about single keys speaks of their positions.
A key that repeats the text of an earlier one declares nothing and is recorded under its name; all
others declare their types in the order of the mapping. Main statements: `entries_decls` and
`duplicates_eq` say so of the whole hierarchy that a mapping declares. So no key is left over as a
duplicate exactly if the keys have distinct texts, and those left over under a name are all keys
with this text but the first (`mem_duplicates_ofEntries_iff`).
-/

namespace HierarchyLint

variable {entries : List (Value × Value)} {i n : Nat}

def entryAt (entries : List (Value × Value)) (i : Nat) : Value × Value :=
  entries.getD i (.null, .null)

def nameAt (entries : List (Value × Value)) (i : Nat) : String := (entryAt entries i).1.text

/-- An earlier position has the same value. -/
def Repeats (f : Nat → String) (i : Nat) : Prop := ∃ j < i, f j = f i

instance (f : Nat → String) : DecidablePred (Repeats f) :=
  fun i => inferInstanceAs (Decidable (∃ j < i, f j = f i))

/-- The positions of the keys that declare types: the first key of each name. -/
def firstPositions (entries : List (Value × Value)) : List Nat :=
  (List.range entries.length).filter fun i => ¬ Repeats (nameAt entries) i

/-- The positions of the other keys. -/
def repeatedPositions (entries : List (Value × Value)) : List Nat :=
  (List.range entries.length).filter fun i => Repeats (nameAt entries) i

/-- The name and the declaration that the entry at a position stands for. -/
def declAt (entries : List (Value × Value)) (i : Nat) : String × TypeDecl :=
  (nameAt entries i, .ofValue (entryAt entries i).2)

/-! ## First positions -/

theorem exists_first (f : Nat → String) (i : Nat) : ∃ j ≤ i, ¬ Repeats f j ∧ f j = f i := by
  induction i using Nat.strongRecOn with
  | ind i ih =>
    by_cases hi : Repeats f i
    · obtain ⟨k, hk, hfk⟩ := hi
      obtain ⟨j, hj, hfirst, hfj⟩ := ih k hk
      exact ⟨j, Nat.le_trans hj (Nat.le_of_lt hk), hfirst, hfj.trans hfk⟩
    · exact ⟨i, Nat.le_refl i, hi, rfl⟩

theorem le_of_not_repeats {f : Nat → String} {j : Nat} (hj : ¬ Repeats f j) (h : f i = f j) :
    j ≤ i :=
  Nat.not_lt.1 fun hi => hj ⟨i, hi, h⟩

theorem not_repeats_unique {f : Nat → String} {j : Nat} (hi : ¬ Repeats f i) (hj : ¬ Repeats f j)
    (h : f i = f j) : i = j :=
  Nat.le_antisymm (le_of_not_repeats hi h.symm) (le_of_not_repeats hj h)

/-- There are as many first positions as there are values. -/
theorem map_first_perm_dedup (f : Nat → String) (n : Nat) :
    (((List.range n).filter fun i => ¬ Repeats f i).map f).Perm ((List.range n).map f).dedup := by
  rw [List.perm_ext_iff_of_nodup _ (List.nodup_dedup _)]
  · intro value
    simp only [List.mem_dedup, List.mem_map, List.mem_filter, List.mem_range, decide_eq_true_eq]
    constructor
    · rintro ⟨i, ⟨hi, -⟩, rfl⟩
      exact ⟨i, hi, rfl⟩
    · rintro ⟨i, hi, rfl⟩
      obtain ⟨j, hj, hfirst, heq⟩ := exists_first f i
      exact ⟨j, ⟨Nat.lt_of_le_of_lt hj hi, hfirst⟩, heq⟩
  · refine (List.nodup_range.filter _).map_on fun i hi j hj heq => ?_
    simp only [List.mem_filter, decide_eq_true_eq] at hi hj
    exact not_repeats_unique hi.2 hj.2 heq

theorem filter_range_succ (p : Nat → Prop) [DecidablePred p] (n : Nat) :
    ((List.range (n + 1)).filter fun i => p i)
      = ((List.range n).filter fun i => p i) ++ if p n then [n] else [] := by
  rw [List.range_succ, List.filter_append, List.filter_singleton]
  by_cases hn : p n <;> simp [hn]

/-! ## Entries by position -/

theorem entryAt_eq (hi : i < entries.length) : entryAt entries i = entries[i] := by
  rw [entryAt, List.getD_eq_getElem?_getD, List.getElem?_eq_getElem hi, Option.getD_some]

theorem take_succ_eq (hn : n < entries.length) :
    entries.take (n + 1) = entries.take n ++ [entryAt entries n] := by
  rw [← List.take_append_getElem hn, entryAt_eq hn]

theorem map_entryAt_range (entries : List (Value × Value)) :
    (List.range entries.length).map (entryAt entries) = entries := by
  refine List.ext_getElem (by simp) fun i _ hi => ?_
  rw [List.getElem_map, List.getElem_range, entryAt_eq hi]

theorem map_eq_map_range {α : Type} (f : Value × Value → α) (entries : List (Value × Value)) :
    entries.map f = (List.range entries.length).map fun i => f (entryAt entries i) := by
  conv => lhs; rw [← map_entryAt_range entries]
  rw [List.map_map]
  rfl

theorem repeatedPositions_eq_nil_iff :
    repeatedPositions entries = [] ↔ (entries.map fun e => e.1.text).Nodup := by
  rw [map_eq_map_range, repeatedPositions, List.filter_eq_nil_iff]
  constructor
  · intro hnone
    refine List.nodup_range.map_on fun i hi j hj hname => ?_
    have hfirst := fun k hk h => hnone k hk (decide_eq_true h)
    exact not_repeats_unique (hfirst i hi) (hfirst j hj) hname
  · intro hn i hi hrep
    obtain ⟨j, hj, hname⟩ := of_decide_eq_true hrep
    have hj' : j ∈ List.range entries.length :=
      List.mem_range.2 (Nat.lt_trans hj (List.mem_range.1 hi))
    exact Nat.ne_of_lt hj (List.inj_on_of_nodup_map hn hj' hi hname)

theorem firstPositions_eq_range (hn : (entries.map fun e => e.1.text).Nodup) :
    firstPositions entries = List.range entries.length := by
  have hnone := List.filter_eq_nil_iff.1 (repeatedPositions_eq_nil_iff.2 hn)
  refine List.filter_eq_self.2 fun i hi => ?_
  simpa using hnone i hi

/-! ## Keys behind the first with their text -/

/-- The keys with the given text, without the first of them. -/
def laterKeys (entries : List (Value × Value)) (name : String) : List Value :=
  ((entries.filter fun e => e.1.text == name).map Prod.fst).tail

/-- Of the positions with one value, all but the first repeat it. -/
theorem tail_filter_range (f : Nat → String) (value : String) (n : Nat) :
    ((List.range n).filter fun i => f i == value).tail
      = ((List.range n).filter fun i => Repeats f i).filter fun i => f i == value := by
  induction n with
  | zero => rfl
  | succ n ih =>
    rw [List.range_succ, List.filter_append, List.filter_append, List.filter_append, ← ih]
    by_cases hn : f n = value
    · have hlast : [n].filter (fun i => f i == value) = [n] := by simp [hn]
      rw [hlast]
      by_cases hnil : ((List.range n).filter fun i => f i == value) = []
      · have hfirst : ¬ Repeats f n := by
          rintro ⟨j, hj, hfj⟩
          have hne := List.filter_eq_nil_iff.1 hnil j (List.mem_range.2 hj)
          exact hne (beq_iff_eq.2 (hfj.trans hn))
        simp [hnil, hfirst]
      · obtain ⟨j, hj⟩ := List.exists_mem_of_ne_nil _ hnil
        rw [List.mem_filter, List.mem_range, beq_iff_eq] at hj
        have hrep : Repeats f n := ⟨j, hj.1, hj.2.trans hn.symm⟩
        rw [List.tail_append_of_ne_nil hnil]
        simp [hrep, hn]
    · have hlast : [n].filter (fun i => f i == value) = [] := by simp [hn]
      rw [hlast, List.append_nil, List.filter_comm, hlast]
      simp

theorem laterKeys_eq (entries : List (Value × Value)) (name : String) :
    laterKeys entries name
      = ((repeatedPositions entries).filter fun i => nameAt entries i == name).map
          fun i => (entryAt entries i).1 := by
  have hentries : (entries.filter fun e => e.1.text == name)
      = ((List.range entries.length).filter fun i => nameAt entries i == name).map
          (entryAt entries) := by
    conv => lhs; rw [← map_entryAt_range entries]
    rw [List.filter_map]
    rfl
  rw [laterKeys, hentries, List.map_map, ← List.map_tail, tail_filter_range]
  rfl

namespace Hierarchy

/-! ## What is declared and what is left over -/

/-- After `n` entries, the keys at the first positions are declared and the others recorded. -/
theorem ofEntries_take (hn : n ≤ entries.length) :
    (ofEntries (entries.take n)).decls.entries
        = ((List.range n).filter fun i => ¬ Repeats (nameAt entries) i).map (declAt entries) ∧
      (ofEntries (entries.take n)).duplicates
        = (Table.group (nameAt entries)
            ((List.range n).filter fun i => Repeats (nameAt entries) i)).entries.map
          fun e => (e.1, e.2.map fun i => (entryAt entries i).1) := by
  induction n with
  | zero => exact ⟨rfl, rfl⟩
  | succ n ih =>
    obtain ⟨hdecls, hdups⟩ := ih (Nat.le_of_succ_le hn)
    have hstep : ofEntries (entries.take (n + 1))
        = (ofEntries (entries.take n)).addEntry (entryAt entries n) := by
      rw [take_succ_eq hn, ofEntries, List.foldl_append]
      rfl
    have hnames :
        nameAt entries n ∈ (ofEntries (entries.take n)).names ↔ Repeats (nameAt entries) n := by
      rw [names, Table.keys, hdecls, List.map_map]
      simp only [List.mem_map, List.mem_filter, List.mem_range, decide_eq_true_eq,
        Function.comp_apply, declAt]
      constructor
      · rintro ⟨j, ⟨hj, -⟩, hname⟩
        exact ⟨j, hj, hname⟩
      · rintro ⟨k, hk, hname⟩
        obtain ⟨j, hj, hfirst, heq⟩ := exists_first (nameAt entries) k
        exact ⟨j, ⟨Nat.lt_of_le_of_lt hj hk, hfirst⟩, heq.trans hname⟩
    rw [hstep, filter_range_succ, filter_range_succ]
    by_cases hrep : Repeats (nameAt entries) n
    · rw [addEntry_repeated (hnames.2 hrep), if_neg (not_not_intro hrep), if_pos hrep,
        List.append_nil, Table.group_concat, Table.entries_push, hdups]
      refine ⟨hdecls, Table.alterEntries_map (fun old => ?_) _ _⟩
      cases old <;> simp
    · have hnew : (entryAt entries n).1.text ∉ (ofEntries (entries.take n)).names :=
        fun h => hrep (hnames.1 h)
      rw [addEntry_new hnew, if_pos hrep, if_neg hrep, List.append_nil,
        Table.entries_set_new _ hnew, hdecls, List.map_append]
      exact ⟨rfl, hdups⟩

theorem entries_decls (entries : List (Value × Value)) :
    (ofEntries entries).decls.entries = (firstPositions entries).map (declAt entries) := by
  have h := (ofEntries_take (Nat.le_refl entries.length)).1
  rwa [List.take_length] at h

theorem names_eq (entries : List (Value × Value)) :
    (ofEntries entries).names = (firstPositions entries).map (nameAt entries) := by
  rw [names, Table.keys, entries_decls, List.map_map]
  rfl

theorem duplicates_eq (entries : List (Value × Value)) :
    (ofEntries entries).duplicates
      = (Table.group (nameAt entries) (repeatedPositions entries)).entries.map
          fun e => (e.1, e.2.map fun i => (entryAt entries i).1) := by
  have h := (ofEntries_take (Nat.le_refl entries.length)).2
  rwa [List.take_length] at h

theorem nodup_text (hn : (entries.map fun e => Text.lower e.1.text).Nodup) :
    (entries.map fun e => e.1.text).Nodup := by
  refine List.Nodup.of_map Text.lower ?_
  rwa [List.map_map]

theorem names_ofEntries (hn : (entries.map fun e => e.1.text).Nodup) :
    (ofEntries entries).names = entries.map fun e => e.1.text := by
  rw [names_eq, firstPositions_eq_range hn, map_eq_map_range]
  rfl

theorem entries_decls_of_nodup (hn : (entries.map fun e => e.1.text).Nodup) :
    (ofEntries entries).decls.entries
      = entries.map fun e => (e.1.text, TypeDecl.ofValue e.2) := by
  rw [entries_decls, firstPositions_eq_range hn]
  exact (map_eq_map_range (fun e => (e.1.text, TypeDecl.ofValue e.2)) entries).symm

theorem duplicates_ofEntries_eq_nil_iff :
    (ofEntries entries).duplicates = [] ↔ (entries.map fun e => e.1.text).Nodup := by
  rw [duplicates_eq, List.map_eq_nil_iff, Table.entries_group_eq_nil_iff,
    repeatedPositions_eq_nil_iff]

/-- The keys left over under a name are all with this text but the first, if there are any. -/
theorem mem_duplicates_ofEntries_iff {name : String} {keys : List Value} :
    (name, keys) ∈ (ofEntries entries).duplicates ↔
      keys ≠ [] ∧ keys = laterKeys entries name := by
  rw [duplicates_eq, laterKeys_eq, List.mem_map]
  constructor
  · rintro ⟨⟨_, ps⟩, he, heq⟩
    cases heq
    obtain ⟨hne, rfl⟩ := Table.mem_entries_group_iff.1 he
    exact ⟨List.map_eq_nil_iff.not.2 hne, rfl⟩
  · rintro ⟨hne, rfl⟩
    exact ⟨(name, _), Table.mem_entries_group_iff.2 ⟨List.map_eq_nil_iff.not.1 hne, rfl⟩, rfl⟩

theorem nodup_duplicates_ofEntries (entries : List (Value × Value)) :
    ((ofEntries entries).duplicates.map Prod.fst).Nodup := by
  rw [duplicates_eq, List.map_map]
  exact (Table.group (nameAt entries) (repeatedPositions entries)).nodup

end Hierarchy

end HierarchyLint
