import HierarchyLint.Proofs.Hierarchy.References

/-!
# Hierarchies in normal form

A hierarchy is written as a mapping from names to declarations without empty parts, and a variance
is written as its text. Reading the mapping again gives the hierarchy in normal form
(`ofValue?_toValue`): no keys are left over, and a variance that was given by the text of a known
one has become that one. Nothing else changes, and a normal form is read back as it is.
-/

namespace HierarchyLint

variable {entries : List (Value × Value)}

theorem Table.eq_of_entries_eq {α : Type} {t u : Table α} (h : t.entries = u.entries) : t = u := by
  obtain ⟨_, _⟩ := t
  obtain ⟨_, _⟩ := u
  cases h
  rfl

/-! ## Declarations -/

/-- The parameter with the variance that its text stands for. -/
def ParamDecl.normal (p : ParamDecl) : ParamDecl := { p with variance := .ofText p.variance.text }

theorem ParamDecl.text_variance_normal (p : ParamDecl) :
    p.normal.variance.text = p.variance.text :=
  Variance.text_ofText _

theorem ParamDecl.normal_normal (p : ParamDecl) : p.normal.normal = p.normal := by
  unfold normal
  simp only [Variance.text_ofText]

theorem ParamDecl.toValue_normal (p : ParamDecl) : p.normal.toValue = p.toValue := by
  unfold toValue
  rw [text_variance_normal]
  rfl

theorem ParamDecl.ofValue?_toValue (p : ParamDecl) : ofValue? p.toValue = some p.normal := rfl

namespace TypeDecl

def normal (d : TypeDecl) : TypeDecl := { d with params := d.params.map ParamDecl.normal }

theorem content_normal (d : TypeDecl) : d.normal.content = d.content := by
  simp only [content, normal, List.map_map, Function.comp_def, ParamDecl.text_variance_normal]
  rfl

theorem normal_normal (d : TypeDecl) : d.normal.normal = d.normal := by
  simp only [normal, List.map_map, Function.comp_def, ParamDecl.normal_normal]

theorem toValue_normal (d : TypeDecl) : d.normal.toValue = d.toValue := by
  have hparams : d.normal.params.map ParamDecl.toValue = d.params.map ParamDecl.toValue := by
    unfold normal
    rw [List.map_map]
    exact List.map_congr_left fun p _ => p.toValue_normal
  have hempty : d.normal.params.isEmpty = d.params.isEmpty := List.isEmpty_map
  unfold toValue
  rw [hparams, hempty]
  rfl

theorem itemsUnder_fulfills_toValue (d : TypeDecl) {entries : List (Value × Value)}
    (h : d.toValue = .map entries) : itemsUnder "fulfills" entries = d.fulfills.map .str := by
  obtain ⟨fulfills, params⟩ := d
  cases h
  cases fulfills with
  | nil => cases params <;> rfl
  | cons text texts => rfl

theorem itemsUnder_params_toValue (d : TypeDecl) {entries : List (Value × Value)}
    (h : d.toValue = .map entries) :
    itemsUnder "params" entries = d.params.map ParamDecl.toValue := by
  obtain ⟨fulfills, params⟩ := d
  cases h
  cases params with
  | nil => cases fulfills <;> rfl
  | cons p ps => cases fulfills <;> rfl

/-- A part that was left out for being empty is read as empty. -/
theorem ofValue_toValue (d : TypeDecl) : ofValue d.toValue = d.normal := by
  obtain ⟨entries, he⟩ : ∃ entries, d.toValue = .map entries := ⟨_, rfl⟩
  have hparams : (d.params.map ParamDecl.toValue).filterMap ParamDecl.ofValue?
      = d.params.map ParamDecl.normal := by
    rw [List.filterMap_map, ← List.filterMap_eq_map]
    exact List.filterMap_congr fun p _ => p.ofValue?_toValue
  have hfulfills : (d.fulfills.map Value.str).filterMap Value.str? = d.fulfills := by
    rw [List.filterMap_map]
    exact List.filterMap_some
  rw [he]
  unfold ofValue
  simp only [Value.entries?, itemsUnder_fulfills_toValue d he, itemsUnder_params_toValue d he,
    hparams, hfulfills]
  rfl

end TypeDecl

/-! ## Hierarchies -/

namespace Hierarchy

variable {h : Hierarchy} {v : Value}

/-- The hierarchy with its declarations in normal form and no keys left over. -/
def normal (h : Hierarchy) : Hierarchy := ⟨h.decls.mapValues fun _ d => d.normal, []⟩

theorem names_normal (h : Hierarchy) : h.normal.names = h.names := Table.keys_mapValues _ _

theorem normal_normal (h : Hierarchy) : h.normal.normal = h.normal := by
  simp only [normal, Table.mapValues_mapValues, TypeDecl.normal_normal]

theorem toValue_normal (h : Hierarchy) : h.normal.toValue = h.toValue := by
  simp only [toValue, normal, Table.mapValues, List.map_map, Function.comp_def,
    TypeDecl.toValue_normal]

theorem nodup_text_toValue (h : Hierarchy) :
    ((h.decls.entries.map fun e => (Value.str e.1, e.2.toValue)).map fun e => e.1.text).Nodup := by
  rw [List.map_map]
  exact h.decls.nodup

theorem ofValue?_toValue (h : Hierarchy) : ofValue? h.toValue = some h.normal := by
  have hn := h.nodup_text_toValue
  have hdecls := entries_decls_of_nodup hn
  have hduplicates := duplicates_ofEntries_eq_nil_iff.2 hn
  simp only [List.map_map, Function.comp_def, TypeDecl.ofValue_toValue] at hdecls
  have hofEntries : ofEntries (h.decls.entries.map fun e => (Value.str e.1, e.2.toValue))
      = h.normal := by
    obtain ⟨decls, duplicates⟩ := h
    generalize ofEntries _ = k at hdecls hduplicates ⊢
    obtain ⟨decls', duplicates'⟩ := k
    cases hduplicates
    exact congrArg (Hierarchy.mk · []) (Table.eq_of_entries_eq hdecls)
  exact congrArg some hofEntries

theorem exists_ofValue? (he : v.entries? = some entries) : ∃ h, ofValue? v = some h := by
  cases v with
  | map entries => exact ⟨_, rfl⟩
  | hierarchy decls duplicates => exact ⟨_, rfl⟩
  | _ => cases he

/-- What a mapping declares can be written and read again: the names keep their order, and every
declaration keeps its references and its parameters with the texts of their variances. No key is
left over, and to write once more changes nothing. -/
theorem written_hierarchy_reads_back (v : Value) (entries : List (Value × Value))
    (he : v.entries? = some entries) :
    ∃ h k, ofValue? v = some h ∧ ofValue? h.toValue = some k ∧
      k.names = h.names ∧
      k.decls.entries.map (fun e => (e.1, e.2.content))
        = h.decls.entries.map (fun e => (e.1, e.2.content)) ∧
      k.duplicates = [] ∧ k.toValue = h.toValue ∧ ofValue? k.toValue = some k := by
  obtain ⟨h, hv⟩ := exists_ofValue? he
  refine ⟨h, h.normal, hv, h.ofValue?_toValue, h.names_normal, ?_, rfl, h.toValue_normal, ?_⟩
  · simp only [normal, Table.mapValues, List.map_map, Function.comp_def, TypeDecl.content_normal]
  · rw [ofValue?_toValue, normal_normal]

/-- Parameters without a variance, with one that is no text, with an unknown and with a known one,
the latter also in finished declarations, and two keys with one name. -/
def looseEntries : List (Value × Value) :=
  [(.int 1, .map [(.str "params", .tuple
      [.map [(.str "name", .str "A")],
        .map [(.str "variance", .list [.bool true]), (.str "name", .str "B")],
        .map [(.str "name", .str "C"), (.str "variance", .str "both")],
        .null, .param ⟨"D", .other "co"⟩])]),
    (.str "1", .map [(.str "fulfills", .list [.str "T"])]),
    (.str "T", .decl ⟨["1", "T["], [⟨"E", .contra⟩]⟩),
    (.null, .str "T")]

theorem written_looseEntries_read_back :
    Value.entries? (.map looseEntries) = some looseEntries ∧
      (ofEntries looseEntries).duplicates.length = 1 ∧
      ∃ k, ofValue? (ofEntries looseEntries).toValue = some k ∧ k.duplicates = [] ∧
        k.decls.entries.map (fun e => (e.1, e.2.content))
          = [("1", [], [("A", ""), ("B", "[True]"), ("C", "both"), ("D", "co")]),
            ("T", ["1", "T["], [("E", "contra")]), ("None", [], [])] := by
  have he : Value.entries? (.map looseEntries) = some looseEntries := rfl
  obtain ⟨h, k, hv, hk, -, hcontent, hduplicates, -, -⟩ := written_hierarchy_reads_back _ _ he
  cases hv
  refine ⟨he, ?_, k, hk, hduplicates, hcontent.trans ?_⟩
  · decide +kernel
  · decide +kernel

end Hierarchy

end HierarchyLint
