import HierarchyLint.Proofs.Hierarchy.Positions

/-!
# The references of a mapping

A declaration refers to supertypes by the strings in its `fulfills` list. Other items of the list
refer to nothing, and neither does a declaration without such a list. The references of a mapping
are those of the declarations that it keeps, in their order; reading the mapping as a hierarchy
loses none of them and adds none (`references_eq`).
-/

namespace HierarchyLint

variable {entries : List (Value × Value)}

/-- The strings in the `fulfills` list of a declaration. -/
def Value.supertypeTexts : Value → List String
  | .decl d => d.fulfills
  | v =>
    match (v.entries?.bind (Value.get? "fulfills")).bind Value.items? with
    | some items => items.filterMap Value.str?
    | none => []

def keptNames (entries : List (Value × Value)) : List String :=
  (firstPositions entries).map (nameAt entries)

/-- The references of a mapping, each with the name of the declaration that it stands in. -/
def writtenRefs (entries : List (Value × Value)) : List (String × String) :=
  (firstPositions entries).flatMap fun i =>
    (entryAt entries i).2.supertypeTexts.map (Prod.mk (nameAt entries i))

theorem fulfills_ofValue (v : Value) : (TypeDecl.ofValue v).fulfills = v.supertypeTexts := by
  have hmapping : ∀ entries : List (Value × Value),
      (itemsUnder "fulfills" entries).filterMap Value.str?
        = match (Value.get? "fulfills" entries).bind Value.items? with
          | some items => items.filterMap Value.str?
          | none => [] := by
    intro entries
    unfold itemsUnder
    cases (Value.get? "fulfills" entries).bind Value.items? <;> rfl
  cases v with
  | map entries => exact hmapping entries
  | hierarchy decls duplicates => exact hmapping _
  | _ => rfl

namespace Hierarchy

variable {h : Hierarchy} {v : Value}

def references (h : Hierarchy) : List (String × String) :=
  h.decls.entries.flatMap fun e => e.2.fulfills.map (Prod.mk e.1)

theorem entries_decls_of_ofValue? (hv : ofValue? v = some h) (he : v.entries? = some entries) :
    h.decls.entries = (firstPositions entries).map (declAt entries) := by
  cases v with
  | map _ =>
    cases hv
    cases he
    exact entries_decls entries
  | hierarchy decls duplicates =>
    cases hv
    cases he
    have htexts : (decls.entries.map fun e => (Value.str e.1, Value.decl e.2)).map
        (fun e => e.1.text) = decls.keys := by
      rw [List.map_map]
      rfl
    rw [firstPositions_eq_range (htexts ▸ decls.nodup)]
    refine Eq.trans ?_ (map_eq_map_range (fun e => (e.1.text, TypeDecl.ofValue e.2)) _)
    rw [List.map_map]
    exact (List.map_id _).symm
  | _ => cases hv

theorem names_of_ofValue? (hv : ofValue? v = some h) (he : v.entries? = some entries) :
    h.names = keptNames entries := by
  rw [names, Table.keys, entries_decls_of_ofValue? hv he, List.map_map]
  rfl

theorem references_eq (hv : ofValue? v = some h) (he : v.entries? = some entries) :
    h.references = writtenRefs entries := by
  rw [references, entries_decls_of_ofValue? hv he, List.flatMap_map]
  refine List.flatMap_congr fun i _ => ?_
  rw [declAt, fulfills_ofValue]

end Hierarchy

end HierarchyLint
