import HierarchyLint.Proofs.Hierarchy.Declared
import HierarchyLint.Proofs.Table.Grouping
import Mathlib.Data.List.Basic

/-!
# Rewriting references

`Value.mapReferences f` replaces every string in a `fulfills` list of a mapping by its image under
`f` and keeps everything else. Reading the rewritten mapping gives the hierarchy with the images
as references (`ofValue?_mapReferences`): the same names are declared, in the same order and with
the same keys left over.
-/

namespace HierarchyLint

variable {f : String → String}

namespace Value

/-- A string is replaced by its image, any other value stays. -/
def mapStr (f : String → String) : Value → Value
  | str s => str (f s)
  | v => v

def mapItems (f : String → String) : Value → Value
  | list items => list (items.map (mapStr f))
  | tuple items => tuple (items.map (mapStr f))
  | v => v

def mapUnder (key : String) (g : Value → Value) (entries : List (Value × Value)) :
    List (Value × Value) :=
  entries.map fun e =>
    match e.1 with
    | str k => if k = key then (e.1, g e.2) else e
    | _ => e

end Value

def TypeDecl.mapReferences (f : String → String) (d : TypeDecl) : TypeDecl :=
  { d with fulfills := d.fulfills.map f }

/-- A declaration with the images of the strings in its `fulfills` list. -/
def Value.mapFulfills (f : String → String) : Value → Value
  | decl d => decl (d.mapReferences f)
  | map entries => map (mapUnder "fulfills" (mapItems f) entries)
  | v => v

/-- A mapping with the images of the strings in all its `fulfills` lists. -/
def Value.mapReferences (f : String → String) : Value → Value
  | map entries => map (entries.map fun e => (e.1, e.2.mapFulfills f))
  | hierarchy decls duplicates =>
    hierarchy (decls.mapValues fun _ d => d.mapReferences f) duplicates
  | v => v

def Hierarchy.mapReferences (f : String → String) (h : Hierarchy) : Hierarchy :=
  { h with decls := h.decls.mapValues fun _ d => d.mapReferences f }

/-! ## Declarations -/

theorem get?_mapUnder (key other : String) (g : Value → Value) (entries : List (Value × Value)) :
    Value.get? other (Value.mapUnder key g entries)
      = if other = key then (Value.get? other entries).map g else Value.get? other entries := by
  induction entries with
  | nil => simp [Value.mapUnder, Value.get?]
  | cons e entries ih =>
    obtain ⟨k, v⟩ := e
    rw [Value.mapUnder] at ih ⊢
    cases k with
    | str k =>
      rw [List.map_cons]
      by_cases hk : k = key
      · by_cases ho : k = other <;> simp_all [Value.get?]
      · by_cases ho : k = other <;> simp_all [Value.get?]
    | _ => exact ih

theorem filterMap_str?_mapStr (items : List Value) :
    (items.map (Value.mapStr f)).filterMap Value.str? = (items.filterMap Value.str?).map f := by
  rw [List.filterMap_map, List.map_filterMap]
  refine List.filterMap_congr fun item _ => ?_
  cases item <;> rfl

theorem itemsUnder_fulfills (entries : List (Value × Value)) :
    itemsUnder "fulfills" (Value.mapUnder "fulfills" (Value.mapItems f) entries)
      = (itemsUnder "fulfills" entries).map (Value.mapStr f) := by
  unfold itemsUnder
  rw [get?_mapUnder, if_pos rfl]
  cases Value.get? "fulfills" entries with
  | none => rfl
  | some v => cases v <;> rfl

theorem itemsUnder_params (entries : List (Value × Value)) :
    itemsUnder "params" (Value.mapUnder "fulfills" (Value.mapItems f) entries)
      = itemsUnder "params" entries := by
  unfold itemsUnder
  rw [get?_mapUnder, if_neg (by decide)]

/-- A hierarchy in the place of a declaration has no lists. -/
theorem itemsUnder_hierarchy (key : String) (es : List (String × TypeDecl)) :
    itemsUnder key (es.map fun e => (Value.str e.1, Value.decl e.2)) = [] := by
  have hget : Value.get? key (es.map fun e => (Value.str e.1, Value.decl e.2))
      = (Table.find? key es).map Value.decl := by
    induction es with
    | nil => rfl
    | cons e es ih =>
      by_cases hk : e.1 = key <;> simp [Value.get?, Table.find?, hk, ih]
  unfold itemsUnder
  rw [hget]
  cases Table.find? key es <;> rfl

theorem ofValue_mapFulfills (v : Value) :
    TypeDecl.ofValue (v.mapFulfills f) = (TypeDecl.ofValue v).mapReferences f := by
  cases v with
  | map entries =>
    simp only [Value.mapFulfills, TypeDecl.ofValue, Value.entries?, itemsUnder_fulfills,
      itemsUnder_params, filterMap_str?_mapStr]
    rfl
  | hierarchy decls duplicates =>
    simp only [Value.mapFulfills, TypeDecl.ofValue, Value.entries?, itemsUnder_hierarchy]
    rfl
  | _ => rfl

/-! ## Hierarchies -/

namespace Table

variable {α β : Type}

theorem contains_mapValues (g : String → α → β) (t : Table α) (key : String) :
    (t.mapValues g).contains key = t.contains key := by
  rw [contains, get?_mapValues, Option.isSome_map]
  rfl

theorem set_mapValues (g : α → β) (t : Table α) (key : String) (v : α) :
    (t.mapValues fun _ => g).set key (g v) = (t.set key v).mapValues fun _ => g := by
  have hentries := alterEntries_map (F := fun _ => v) (G := fun _ => g v) (g := g)
    (fun _ => rfl) key t.entries
  simpa [set, alter, mapValues] using hentries

end Table

namespace Hierarchy

theorem names_mapReferences (h : Hierarchy) : (h.mapReferences f).names = h.names :=
  Table.keys_mapValues _ _

theorem addEntry_mapReferences (h : Hierarchy) (key v : Value) :
    (h.mapReferences f).addEntry (key, v.mapFulfills f)
      = (h.addEntry (key, v)).mapReferences f := by
  simp only [addEntry, mapReferences, Table.contains_mapValues, ofValue_mapFulfills,
    Table.set_mapValues]
  split
  · rfl
  · rfl

theorem foldl_addEntry_mapReferences (entries : List (Value × Value)) (h : Hierarchy) :
    (entries.map fun e => (e.1, e.2.mapFulfills f)).foldl addEntry (h.mapReferences f)
      = (entries.foldl addEntry h).mapReferences f := by
  induction entries generalizing h with
  | nil => rfl
  | cons e entries ih =>
    rw [List.map_cons, List.foldl_cons, List.foldl_cons, addEntry_mapReferences, ih]

theorem ofValue?_mapReferences (v : Value) :
    ofValue? (v.mapReferences f) = (ofValue? v).map (mapReferences f) := by
  cases v with
  | map entries => exact congrArg some (foldl_addEntry_mapReferences entries empty)
  | _ => rfl

end Hierarchy

end HierarchyLint
