import HierarchyLint.Hierarchy.Basic
import HierarchyLint.Proofs.Table

/-!
# What a mapping declares

The declaration of a name in a mapping is the value of the first key with this text
(`Value.declaration?`), and the supertypes that a declaration names are the strings in its list
(`HasEntry`). Reading a mapping as a hierarchy keeps exactly these (`get?_decls`). If the keys have
distinct texts, every key declares a type.
-/

namespace HierarchyLint

/-- The text is a string in the `fulfills` list of the declaration. -/
inductive HasEntry : Value → String → Prop where
  | decl {d : TypeDecl} {text : String} : text ∈ d.fulfills → HasEntry (.decl d) text
  | mapping {v list : Value} {entries : List (Value × Value)} {items : List Value}
      {text : String} :
      v.entries? = some entries → Value.get? "fulfills" entries = some list →
      list.items? = some items → .str text ∈ items → HasEntry v text

/-- The declaration of a name in a mapping: the value of the first key with this text. -/
def Value.declaration? (v : Value) (name : String) : Option Value :=
  ((v.entries?.getD []).find? fun e => e.1.text == name).map Prod.snd

theorem str?_eq_some_iff {v : Value} {s : String} : v.str? = some s ↔ v = .str s := by
  cases v <;> simp [Value.str?]

theorem mem_itemsUnder_iff {key : String} {entries : List (Value × Value)} {item : Value} :
    item ∈ itemsUnder key entries ↔ ∃ list items, Value.get? key entries = some list ∧
      list.items? = some items ∧ item ∈ items := by
  unfold itemsUnder
  cases Value.get? key entries with
  | none => simp
  | some list => cases h : list.items? <;> simp [h]

theorem hasEntry_iff {v : Value} {text : String} :
    HasEntry v text ↔ text ∈ (TypeDecl.ofValue v).fulfills := by
  constructor
  · intro h
    cases h with
    | decl h => exact h
    | @mapping v list entries items text he hl hi hm =>
      have hitem := mem_itemsUnder_iff.2 ⟨list, items, hl, hi, hm⟩
      have hfulfills : text ∈ (itemsUnder "fulfills" entries).filterMap Value.str? :=
        List.mem_filterMap.2 ⟨_, hitem, rfl⟩
      cases v <;> simp_all [TypeDecl.ofValue, Value.entries?]
  · intro h
    by_cases hd : ∃ d, v = .decl d
    · obtain ⟨d, rfl⟩ := hd
      exact .decl h
    · cases he : v.entries? with
      | none =>
        have hv : TypeDecl.ofValue v = {} := by
          cases v <;> simp_all [TypeDecl.ofValue]
        rw [hv] at h
        cases h
      | some entries =>
        have hv : (TypeDecl.ofValue v).fulfills
            = (itemsUnder "fulfills" entries).filterMap Value.str? := by
          cases v <;> simp_all [TypeDecl.ofValue]
        rw [hv] at h
        obtain ⟨item, hitem, hs⟩ := List.mem_filterMap.1 h
        obtain rfl := str?_eq_some_iff.1 hs
        obtain ⟨list, items, hl, hi, hm⟩ := mem_itemsUnder_iff.1 hitem
        exact .mapping he hl hi hm

namespace Hierarchy

variable {h : Hierarchy} {entry : Value × Value} {entries : List (Value × Value)} {name : String}

/-! ## One entry -/

theorem addEntry_new (hn : entry.1.text ∉ h.names) :
    h.addEntry entry = { h with decls := h.decls.set entry.1.text (.ofValue entry.2) } := by
  have hc : h.decls.contains entry.1.text = false := by
    rw [← Bool.not_eq_true, Table.contains_iff]
    exact hn
  simp [addEntry, hc]

theorem addEntry_repeated (hn : entry.1.text ∈ h.names) :
    h.addEntry entry = ⟨h.decls,
      Table.alterEntries entry.1.text (fun old => old.getD [] ++ [entry.1]) h.duplicates⟩ := by
  have hc : h.decls.contains entry.1.text = true := Table.contains_iff.2 hn
  simp [addEntry, hc]

theorem get?_addEntry (h : Hierarchy) (entry : Value × Value) (name : String) :
    (h.addEntry entry).decls.get? name =
      (h.decls.get? name).or (if entry.1.text = name then some (.ofValue entry.2) else none) := by
  by_cases hn : entry.1.text ∈ h.names
  · rw [addEntry_repeated hn]
    split
    · rename_i hname
      obtain ⟨d, hd⟩ := Table.mem_keys_iff.1 (hname ▸ hn)
      rw [hd]
      rfl
    · rw [Option.or_none]
  · rw [addEntry_new hn]
    split
    · rename_i hname
      subst hname
      rw [Table.get?_eq_none_iff.2 hn, Table.set, Table.get?_alter_self]
      rfl
    · rename_i hname
      rw [Table.set, Table.get?_alter_ne _ (Ne.symm hname), Option.or_none]

/-! ## Whole mappings -/

theorem get?_foldl_addEntry (entries : List (Value × Value)) (h : Hierarchy) (name : String) :
    (entries.foldl addEntry h).decls.get? name = (h.decls.get? name).or
      ((entries.find? fun e => e.1.text == name).map fun e => .ofValue e.2) := by
  induction entries generalizing h with
  | nil => simp
  | cons entry entries ih =>
    rw [List.foldl_cons, ih, get?_addEntry, Option.or_assoc]
    by_cases hname : entry.1.text = name <;> simp [hname]

/-- The hierarchy of a mapping declares each name by the first key that has it. -/
theorem get?_decls {v : Value} (hv : ofValue? v = some h) (name : String) :
    h.decls.get? name = (v.declaration? name).map TypeDecl.ofValue := by
  cases v with
  | map entries =>
    cases hv
    rw [ofEntries, get?_foldl_addEntry, Value.declaration?, Option.map_map]
    rfl
  | hierarchy decls duplicates =>
    cases hv
    have hfind : ∀ es : List (String × TypeDecl),
        ((es.map fun e => (Value.str e.1, Value.decl e.2)).find? fun e => e.1.text == name)
          = (es.find? fun e => e.1 == name).map fun e => (Value.str e.1, Value.decl e.2) := by
      intro es
      rw [List.find?_map]
      rfl
    rw [Table.get?, Table.find?_eq, Value.declaration?, Value.entries?, Option.getD_some, hfind,
      Option.map_map, Option.map_map]
    rfl
  | _ => cases hv

theorem mem_names_iff : name ∈ h.names ↔ ∃ d, h.decls.get? name = some d := Table.mem_keys_iff

/-! ## Mappings whose keys have distinct texts -/

theorem get?_ofEntries (hn : (entries.map fun e => e.1.text).Nodup) (he : entry ∈ entries) :
    (ofEntries entries).decls.get? entry.1.text = some (.ofValue entry.2) := by
  have hfind : (entries.find? fun e => e.1.text == entry.1.text) = some entry := by
    induction entries with
    | nil => cases he
    | cons e entries ih =>
      rw [List.map_cons, List.nodup_cons] at hn
      rcases List.mem_cons.1 he with rfl | he
      · simp
      · have hne : e.1.text ≠ entry.1.text :=
          fun h => hn.1 (h ▸ List.mem_map_of_mem (f := fun e => e.1.text) he)
        rw [List.find?_cons_of_neg (by simpa using hne)]
        exact ih hn.2 he
  rw [ofEntries, get?_foldl_addEntry, hfind]
  rfl

end Hierarchy

end HierarchyLint
