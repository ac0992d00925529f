import HierarchyLint.Table

/-!
# Looking up table entries

The keys of a table are distinct, so looking up a key finds exactly the entries of the table
(`get?_eq_some_iff`). `mapValues` keeps every entry where it is, and setting a new key adds one
at the end.
-/

namespace HierarchyLint.Table

variable {α β : Type}

theorem find?_eq_none_iff {key : String} {es : List (String × α)} :
    find? key es = none ↔ key ∉ es.map Prod.fst := by
  induction es with
  | nil => simp [find?]
  | cons e es ih =>
    obtain ⟨k, v⟩ := e
    by_cases h : k = key
    · simp [find?, h]
    · simp [find?, h, ih, Ne.symm h]

theorem find?_eq_some_iff {key : String} {v : α} {es : List (String × α)}
    (h : (es.map Prod.fst).Nodup) : find? key es = some v ↔ (key, v) ∈ es := by
  induction es with
  | nil => simp [find?]
  | cons e es ih =>
    obtain ⟨k, w⟩ := e
    rw [List.map_cons, List.nodup_cons] at h
    by_cases hk : k = key
    · subst hk
      have hmem : (k, v) ∉ es := fun hv => h.1 (List.mem_map.2 ⟨(k, v), hv, rfl⟩)
      simp [find?, hmem, eq_comm]
    · simp [find?, hk, ih h.2, Ne.symm hk]

theorem find?_eq (key : String) (es : List (String × α)) :
    find? key es = (es.find? fun e => e.1 == key).map Prod.snd := by
  induction es with
  | nil => rfl
  | cons e es ih =>
    obtain ⟨k, v⟩ := e
    by_cases h : k = key <;> simp [find?, h, ih]

theorem find?_map (key : String) (f : String → α → β) (es : List (String × α)) :
    find? key (es.map fun e => (e.1, f e.1 e.2)) = (find? key es).map (f key) := by
  induction es with
  | nil => rfl
  | cons e es ih =>
    obtain ⟨k, v⟩ := e
    by_cases h : k = key
    · subst h; simp [find?]
    · simp [find?, h, ih]

theorem get?_eq_some_iff {t : Table α} {key : String} {v : α} :
    t.get? key = some v ↔ (key, v) ∈ t.entries :=
  find?_eq_some_iff t.nodup

theorem get?_eq_none_iff {t : Table α} {key : String} : t.get? key = none ↔ key ∉ t.keys :=
  find?_eq_none_iff

theorem mem_keys_iff {t : Table α} {key : String} : key ∈ t.keys ↔ ∃ v, t.get? key = some v := by
  rw [← Option.isSome_iff_exists, Option.isSome_iff_ne_none, ne_eq, get?_eq_none_iff,
    Classical.not_not]

theorem contains_iff {t : Table α} {key : String} : t.contains key = true ↔ key ∈ t.keys := by
  rw [contains, Option.isSome_iff_exists, mem_keys_iff]

theorem get?_mapValues (f : String → α → β) (t : Table α) (key : String) :
    (t.mapValues f).get? key = (t.get? key).map (f key) :=
  find?_map key f t.entries

theorem mapValues_mapValues {γ : Type} (f : String → α → β) (g : String → β → γ) (t : Table α) :
    (t.mapValues f).mapValues g = t.mapValues fun key v => g key (f key v) := by
  simp [mapValues, Function.comp_def]

theorem entries_set_new {t : Table α} {key : String} (v : α) (h : key ∉ t.keys) :
    (t.set key v).entries = t.entries ++ [(key, v)] := by
  have aux : ∀ es : List (String × α), key ∉ es.map Prod.fst →
      alterEntries key (fun _ => v) es = es ++ [(key, v)] := by
    intro es
    induction es with
    | nil => intro _; rfl
    | cons e es ih =>
      intro hk
      rw [List.map_cons, List.mem_cons, not_or] at hk
      simp [alterEntries, Ne.symm hk.1, ih hk.2]
  exact aux t.entries h

/-! ## Leaving out the entry with a key -/

theorem filter_ne_eq_self {key : String} {es : List (String × α)} (h : key ∉ es.map Prod.fst) :
    es.filter (fun e => e.1 ≠ key) = es := by
  refine List.filter_eq_self.2 fun e he => ?_
  have hne : e.1 ≠ key := fun heq => h (heq ▸ List.mem_map_of_mem he)
  simpa using hne

theorem find?_filter_ne {key other : String} (h : key ≠ other) (es : List (String × α)) :
    find? key (es.filter fun e => e.1 ≠ other) = find? key es := by
  induction es with
  | nil => rfl
  | cons e es ih =>
    obtain ⟨k, v⟩ := e
    by_cases hk : k = other
    · subst hk
      simpa [find?, Ne.symm h] using ih
    · by_cases hkey : k = key
      · simp [find?, hkey, h]
      · simpa [find?, hk, hkey] using ih

theorem filter_alterEntries_self (key : String) (f : Option α → α) (es : List (String × α)) :
    (alterEntries key f es).filter (fun e => e.1 ≠ key) = es.filter fun e => e.1 ≠ key := by
  induction es with
  | nil => simp [alterEntries]
  | cons e es ih =>
    obtain ⟨k, v⟩ := e
    by_cases hk : k = key
    · simp [alterEntries, hk]
    · simpa [alterEntries, hk] using ih

theorem filter_alterEntries_ne {key other : String} (h : key ≠ other) (f : Option α → α)
    (es : List (String × α)) :
    (alterEntries key f es).filter (fun e => e.1 ≠ other)
      = alterEntries key f (es.filter fun e => e.1 ≠ other) := by
  induction es with
  | nil => simp [alterEntries, h]
  | cons e es ih =>
    obtain ⟨k, v⟩ := e
    by_cases hk : k = key
    · subst hk
      simp [alterEntries, h]
    · by_cases ho : k = other
      · simpa [alterEntries, hk, ho, Ne.symm h] using ih
      · simpa [alterEntries, hk, ho] using ih

end HierarchyLint.Table
