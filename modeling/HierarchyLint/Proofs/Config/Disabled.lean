import HierarchyLint.Config.Schema

/-!
# The checks that data switch off

Data name the checks to switch off in a list, or in an object that is taken for one, such as a set.
If they hold a configuration at all, then the checks that are off are those with a name among the
items (`Config.mem_disabled_iff_names`), and the check of the shape is not one of them
(`Config.not_names_invalidShape`).
-/

namespace HierarchyLint

variable {k : DiagnosticKind} {v : Value} {c : Config}

namespace DiagnosticKind

theorem ofText?_text (k : DiagnosticKind) : ofText? k.text = some k := by
  cases k <;> rfl

theorem text_inj {k' : DiagnosticKind} : k.text = k'.text ↔ k = k' := by
  constructor
  · intro h
    have hsome : some k = some k' := by rw [← ofText?_text k, h, ofText?_text]
    exact Option.some.inj hsome
  · rintro rfl
    rfl

theorem ofText?_eq_some {text : String} (h : ofText? text = some k) : k.text = text := by
  have hfound := List.find?_some (p := fun k : DiagnosticKind => k.text == text) h
  exact beq_iff_eq.1 hfound

end DiagnosticKind

namespace Config

/-- The value is data with the name of the check among those to switch off. -/
def Names (v : Value) (k : DiagnosticKind) : Prop :=
  ∃ entries w items, v.entries? = some entries ∧ Value.get? disabledField entries = some w ∧
    w.plain.items? = some items ∧ .str k.text ∈ items.map Value.plain

theorem eq_str_of_names (h : v.str?.bind DiagnosticKind.ofText? = some k) : v = .str k.text := by
  obtain ⟨text, hv, htext⟩ := Option.bind_eq_some_iff.1 h
  obtain rfl := DiagnosticKind.ofText?_eq_some htext
  cases v with
  | str s =>
    cases hv
    rfl
  | _ => cases hv

/-- Where every item names a check, the checks are those that are named. -/
theorem mem_of_decodeChecks {index : Nat} {items : List Value} {checks : List DiagnosticKind}
    (h : decodeChecks index items = ([], checks)) :
    k ∈ checks ↔ .str k.text ∈ items.map Value.plain := by
  induction items generalizing index checks with
  | nil =>
    cases h
    simp
  | cons v items ih =>
    rcases hrest : decodeChecks (index + 1) items with ⟨errors, rest⟩
    rw [decodeChecks, hrest] at h
    dsimp only at h
    split at h
    · rename_i k' hk'
      cases h
      rw [List.map_cons, eq_str_of_names hk', List.mem_cons, List.mem_cons, ih hrest,
        Value.str.injEq, DiagnosticKind.text_inj]
    · cases h

theorem mem_of_decodeDisabled {checks : List DiagnosticKind} (h : decodeDisabled v = .ok checks) :
    .invalidShape ∉ checks ∧
      ∃ items, v.plain.items? = some items ∧
        ∀ k, k ∈ checks ↔ .str k.text ∈ items.map Value.plain := by
  unfold decodeDisabled at h
  split at h
  · cases h
  · rename_i items hitems
    split at h
    · rename_i found hfound
      split at h
      · cases h
      · rename_i hshape
        cases h
        refine ⟨?_, items, hitems, fun k => ?_⟩
        · rwa [List.mem_eraseDups]
        · rw [List.mem_eraseDups, mem_of_decodeChecks hfound]
    · cases h

/-- Data with a configuration are a mapping, and its field tells the checks to switch off. -/
theorem exists_field_of_decode (h : decode v = .ok c) :
    ∃ entries, v.entries? = some entries ∧
      field disabledField [] decodeDisabled entries = .ok c.disabled := by
  unfold decode at h
  split at h
  · cases h
  · rename_i entries hentries
    dsimp only at h
    split at h
    · rename_i hdisabled _ _
      cases h
      exact ⟨entries, hentries, hdisabled⟩
    · cases h

theorem mem_disabled_iff_names (h : decode v = .ok c) : k ∈ c.disabled ↔ Names v k := by
  obtain ⟨entries, hentries, hfield⟩ := exists_field_of_decode h
  unfold field at hfield
  split at hfield
  · rename_i w hw
    obtain ⟨-, items, hitems, hmem⟩ := mem_of_decodeDisabled hfield
    rw [hmem]
    constructor
    · intro hk
      exact ⟨entries, w, items, hentries, hw, hitems, hk⟩
    · rintro ⟨entries', w', items', hentries', hw', hitems', hk⟩
      obtain rfl := Option.some.inj (hentries.symm.trans hentries')
      obtain rfl := Option.some.inj (hw.symm.trans hw')
      obtain rfl := Option.some.inj (hitems.symm.trans hitems')
      exact hk
  · rename_i hnone
    have hempty : c.disabled = [] := (Except.ok.inj hfield).symm
    rw [hempty]
    refine iff_of_false List.not_mem_nil ?_
    rintro ⟨entries', w, -, hentries', hw, -⟩
    obtain rfl := Option.some.inj (hentries.symm.trans hentries')
    cases hnone.symm.trans hw

theorem invalidShape_not_mem_disabled (h : decode v = .ok c) : .invalidShape ∉ c.disabled := by
  obtain ⟨entries, -, hfield⟩ := exists_field_of_decode h
  unfold field at hfield
  split at hfield
  · exact (mem_of_decodeDisabled hfield).1
  · rw [← Except.ok.inj hfield]
    exact List.not_mem_nil

theorem not_names_invalidShape (h : decode v = .ok c) : ¬ Names v .invalidShape :=
  mt (mem_disabled_iff_names h).2 (invalidShape_not_mem_disabled h)

/-- A set that names the check is refused like a list. -/
example :
    decode (.map [(.str disabledField, .other "\x7b'invalid_shape'\x7d" "\x7b'invalid_shape'\x7d"
      false (some (.list [.str "invalid_shape"])))])
      = .error [⟨.shapeDisabled, [.key disabledField]⟩] := by
  rfl

end Config

end HierarchyLint
