/-!
# Ordered tables

A table maps distinct string keys to values and remembers the order in which the keys were first
set. `alter` is the one way to change it: a key that is there keeps its place, and a new key goes
to the end. `keys_alter` says so, and `get?_alter_self`, `get?_alter_ne` say what is found after.
-/

namespace HierarchyLint

/-- A finite map from strings that remembers the order of its keys. -/
structure Table (α : Type) where
  entries : List (String × α)
  nodup : (entries.map Prod.fst).Nodup

namespace Table

variable {α β : Type}

instance [DecidableEq α] : DecidableEq (Table α) := fun s t =>
  decidable_of_iff (s.entries = t.entries) <| by
    cases s; cases t; simp

/-- The value of the first entry with the key. -/
def find? (key : String) : List (String × α) → Option α
  | [] => none
  | (k, v) :: rest => if k = key then some v else find? key rest

/-- Changes the entry with the key, or adds one at the end. -/
def alterEntries (key : String) (f : Option α → α) : List (String × α) → List (String × α)
  | [] => [(key, f none)]
  | (k, v) :: rest =>
    if k = key then (k, f (some v)) :: rest else (k, v) :: alterEntries key f rest

theorem keys_alterEntries (key : String) (f : Option α → α) (es : List (String × α)) :
    (alterEntries key f es).map Prod.fst =
      if key ∈ es.map Prod.fst then es.map Prod.fst else es.map Prod.fst ++ [key] := by
  induction es with
  | nil => simp [alterEntries]
  | cons e es ih =>
    obtain ⟨k, v⟩ := e
    by_cases h : k = key
    · simp [alterEntries, h]
    · have h' : key ≠ k := fun e => h e.symm
      simp only [alterEntries, h, if_false, List.map_cons, ih, List.mem_cons, h', false_or]
      split <;> simp

theorem nodup_alterEntries (key : String) (f : Option α → α) {es : List (String × α)}
    (h : (es.map Prod.fst).Nodup) : ((alterEntries key f es).map Prod.fst).Nodup := by
  rw [keys_alterEntries]
  split
  · exact h
  · rename_i hk
    refine List.nodup_append.2 ⟨h, by simp, ?_⟩
    intro a ha b hb
    rw [List.mem_singleton.1 hb]
    rintro rfl
    exact hk ha

theorem find?_alterEntries_self (key : String) (f : Option α → α) (es : List (String × α)) :
    find? key (alterEntries key f es) = some (f (find? key es)) := by
  induction es with
  | nil => simp [alterEntries, find?]
  | cons e es ih =>
    obtain ⟨k, v⟩ := e
    by_cases h : k = key <;> simp [alterEntries, find?, h, ih]

theorem find?_alterEntries_ne {key other : String} (hne : other ≠ key) (f : Option α → α)
    (es : List (String × α)) : find? other (alterEntries key f es) = find? other es := by
  induction es with
  | nil => simp [alterEntries, find?, hne.symm]
  | cons e es ih =>
    obtain ⟨k, v⟩ := e
    by_cases h : k = key
    · subst h; simp [alterEntries, find?, hne.symm]
    · simp [alterEntries, find?, h, ih]

def empty : Table α := ⟨[], by simp⟩

instance : Inhabited (Table α) := ⟨empty⟩

/-- The keys, in the order in which they were first set. -/
def keys (t : Table α) : List String := t.entries.map Prod.fst

def values (t : Table α) : List α := t.entries.map Prod.snd

def size (t : Table α) : Nat := t.entries.length

def get? (t : Table α) (key : String) : Option α := find? key t.entries

def contains (t : Table α) (key : String) : Bool := (t.get? key).isSome

/-- Sets the value of the key to `f` of its present one. -/
def alter (t : Table α) (key : String) (f : Option α → α) : Table α :=
  ⟨alterEntries key f t.entries, nodup_alterEntries key f t.nodup⟩

def set (t : Table α) (key : String) (value : α) : Table α := t.alter key fun _ => value

/-- Sets the value of a key that has none yet. -/
def insertNew (t : Table α) (key : String) (value : α) : Table α :=
  t.alter key fun old => old.getD value

/-- Adds to the list under the key. -/
def push (t : Table (List α)) (key : String) (item : α) : Table (List α) :=
  t.alter key fun old => old.getD [] ++ [item]

/-- The table of the pairs; of two pairs with one key the later gives the value. -/
def ofList (pairs : List (String × α)) : Table α :=
  pairs.foldl (fun t pair => t.set pair.1 pair.2) empty

def mapValues (f : String → α → β) (t : Table α) : Table β :=
  ⟨t.entries.map fun e => (e.1, f e.1 e.2), by
    have h : (t.entries.map fun e => (e.1, f e.1 e.2)).map Prod.fst = t.entries.map Prod.fst := by
      simp [Function.comp_def]
    rw [h]; exact t.nodup⟩

theorem keys_alter (t : Table α) (key : String) (f : Option α → α) :
    (t.alter key f).keys = if key ∈ t.keys then t.keys else t.keys ++ [key] :=
  keys_alterEntries key f t.entries

theorem get?_alter_self (t : Table α) (key : String) (f : Option α → α) :
    (t.alter key f).get? key = some (f (t.get? key)) :=
  find?_alterEntries_self key f t.entries

theorem get?_alter_ne (t : Table α) {key other : String} (h : other ≠ key)
    (f : Option α → α) : (t.alter key f).get? other = t.get? other :=
  find?_alterEntries_ne h f t.entries

theorem keys_mapValues (f : String → α → β) (t : Table α) : (t.mapValues f).keys = t.keys := by
  simp [mapValues, keys, Function.comp_def]

end Table

end HierarchyLint
