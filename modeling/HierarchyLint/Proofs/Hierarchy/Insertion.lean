import HierarchyLint.Proofs.Graph.DeadEnd
import HierarchyLint.Proofs.Hierarchy.Edges
import HierarchyLint.Proofs.Hierarchy.Positions

/-!
# One more declaration

A mapping declares one more type if an entry is put into it whose key is like no other one, even
but for case. If the new declaration refers to nothing, every other type keeps its declaration and
its place. A reference that had no target leads to the new type if it has its name, and all other
references lead where they led before (`ofText_cases`). So the graph only gets a dead end
(`hidesDeadEnd`).
-/

namespace HierarchyLint

variable {name : String} {decl v v' : Value} {entries : List (Value × Value)}

/-- The second mapping has the entries of the first one and one more, which declares the name, at
any place. -/
inductive Value.Inserts (name : String) (decl : Value) : Value → Value → Prop where
  | map (before after : List (Value × Value)) :
      Inserts name decl (.map (before ++ after)) (.map (before ++ (.str name, decl) :: after))
  | hierarchy {decls decls' : Table TypeDecl} {before after : List (String × TypeDecl)}
      (duplicates : List (String × List Value)) : decls.entries = before ++ after →
      decls'.entries = before ++ (name, .ofValue decl) :: after →
      Inserts name decl (.hierarchy decls duplicates) (.hierarchy decls' duplicates)

/-- The second hierarchy declares one more type, which refers to nothing and is like no other one,
even but for case. -/
structure Hierarchy.Inserts (name : String) (h h' : Hierarchy) : Prop where
  decls : h.decls.entries = h'.decls.entries.filter fun e => e.1 ≠ name
  duplicates : h'.duplicates = h.duplicates
  declared : name ∈ h'.names
  fulfills_eq_nil : ∀ d, (name, d) ∈ h'.decls.entries → d.fulfills = []
  apart : ∀ n ∈ h.names, Text.lower n ≠ Text.lower name

namespace Hierarchy

variable {h h' : Hierarchy} {entry : Value × Value}

/-! ## Reading the mapping -/

theorem exists_entry_of_mem_names {n : String} (hn : n ∈ (ofEntries entries).names) :
    ∃ e ∈ entries, e.1.text = n := by
  obtain ⟨d, hd⟩ := mem_names_iff.1 hn
  rw [ofEntries, get?_foldl_addEntry] at hd
  cases hfind : entries.find? fun e => e.1.text == n with
  | none => rw [hfind] at hd; cases hd
  | some e => exact ⟨e, List.mem_of_find?_eq_some hfind, by simpa using List.find?_some hfind⟩

/-- A key of its own is declared behind all others. -/
theorem addEntry_declares (hapart : ∀ n ∈ h.names, Text.lower n ≠ Text.lower name)
    (hdecl : (TypeDecl.ofValue decl).fulfills = []) :
    h.Inserts name (h.addEntry (.str name, decl)) := by
  have hnew : name ∉ h.names := fun hn => hapart name hn rfl
  have hentries := Table.entries_set_new (TypeDecl.ofValue decl) hnew
  rw [addEntry_new hnew]
  refine ⟨?_, rfl, ?_, fun d hd => ?_, hapart⟩
  · show h.decls.entries = (h.decls.set name _).entries.filter fun e => e.1 ≠ name
    rw [hentries, List.filter_append, Table.filter_ne_eq_self hnew]
    simp
  · show name ∈ (h.decls.set name _).entries.map Prod.fst
    rw [hentries]
    simp
  · have hd' : (name, d) ∈ h.decls.entries ++ [(name, TypeDecl.ofValue decl)] := hentries ▸ hd
    rcases List.mem_append.1 hd' with hd' | hd'
    · exact absurd (List.mem_map_of_mem (f := Prod.fst) hd') hnew
    · cases List.mem_singleton.1 hd'
      exact hdecl

namespace Inserts

variable (hi : h.Inserts name h')
include hi

theorem names : h.names = h'.names.filter fun n => n ≠ name := by
  unfold Hierarchy.names Table.keys
  rw [hi.decls, List.filter_map]
  rfl

theorem mem_names_iff {n : String} (hn : n ≠ name) : n ∈ h'.names ↔ n ∈ h.names := by
  rw [hi.names, List.mem_filter]
  simp [hn]

theorem name_notMem : name ∉ h.names := fun hn => hi.apart name hn rfl

theorem addEntry (hne : Text.lower entry.1.text ≠ Text.lower name) :
    (h.addEntry entry).Inserts name (h'.addEntry entry) := by
  have htext : entry.1.text ≠ name := fun heq => hne (heq ▸ rfl)
  by_cases hn : entry.1.text ∈ h.names
  · rw [addEntry_repeated hn, addEntry_repeated ((hi.mem_names_iff htext).2 hn), hi.duplicates]
    exact ⟨hi.decls, rfl, hi.declared, hi.fulfills_eq_nil, hi.apart⟩
  · have hn' : entry.1.text ∉ h'.names := mt (hi.mem_names_iff htext).1 hn
    have hentries := Table.entries_set_new (TypeDecl.ofValue entry.2) hn
    have hentries' := Table.entries_set_new (TypeDecl.ofValue entry.2) hn'
    rw [addEntry_new hn, addEntry_new hn']
    refine ⟨?_, hi.duplicates, ?_, fun d hd => ?_, fun n hmem => ?_⟩
    · show (h.decls.set _ _).entries = (h'.decls.set _ _).entries.filter fun e => e.1 ≠ name
      rw [hentries, hentries', List.filter_append, ← hi.decls]
      simp [htext]
    · show name ∈ (h'.decls.set _ _).entries.map Prod.fst
      rw [hentries', List.map_append]
      exact List.mem_append_left _ hi.declared
    · have hd' : (name, d) ∈ h'.decls.entries ++ [(entry.1.text, TypeDecl.ofValue entry.2)] :=
        hentries' ▸ hd
      rcases List.mem_append.1 hd' with hd' | hd'
      · exact hi.fulfills_eq_nil d hd'
      · exact absurd (congrArg Prod.fst (List.mem_singleton.1 hd')).symm htext
    · have hmem' : n ∈ (h.decls.entries ++ [(entry.1.text, TypeDecl.ofValue entry.2)]).map
          Prod.fst := hentries ▸ hmem
      rw [List.map_append, List.mem_append] at hmem'
      rcases hmem' with hmem' | hmem'
      · exact hi.apart n hmem'
      · rwa [List.mem_singleton.1 hmem']

omit hi in
theorem foldl_addEntry (hi : h.Inserts name h')
    (hkeys : ∀ e ∈ entries, Text.lower e.1.text ≠ Text.lower name) :
    (entries.foldl Hierarchy.addEntry h).Inserts name (entries.foldl Hierarchy.addEntry h') := by
  induction entries generalizing h h' with
  | nil => exact hi
  | cons entry entries ih =>
    obtain ⟨hentry, hentries⟩ := List.forall_mem_cons.1 hkeys
    exact ih (hi.addEntry hentry) hentries

end Inserts

theorem inserts_ofEntries {before after : List (Value × Value)}
    (hkeys : ∀ e ∈ before ++ after, Text.lower e.1.text ≠ Text.lower name)
    (hdecl : (TypeDecl.ofValue decl).fulfills = []) :
    (ofEntries (before ++ after)).Inserts name
      (ofEntries (before ++ (.str name, decl) :: after)) := by
  have hbefore : ∀ n ∈ (ofEntries before).names, Text.lower n ≠ Text.lower name := by
    intro n hn
    obtain ⟨e, he, rfl⟩ := exists_entry_of_mem_names hn
    exact hkeys e (List.mem_append_left _ he)
  rw [ofEntries, ofEntries, List.foldl_append, List.foldl_append, List.foldl_cons]
  exact (addEntry_declares hbefore hdecl).foldl_addEntry fun e he =>
    hkeys e (List.mem_append_right _ he)

theorem inserts_hierarchy {decls decls' : Table TypeDecl} {before after : List (String × TypeDecl)}
    {duplicates : List (String × List Value)} (hdecls : decls.entries = before ++ after)
    (hdecls' : decls'.entries = before ++ (name, TypeDecl.ofValue decl) :: after)
    (hkeys : ∀ e ∈ decls.entries, Text.lower e.1 ≠ Text.lower name)
    (hdecl : (TypeDecl.ofValue decl).fulfills = []) :
    Inserts name ⟨decls, duplicates⟩ ⟨decls', duplicates⟩ := by
  have hnew : name ∉ (before ++ after).map Prod.fst := by
    rw [← hdecls]
    intro hname
    obtain ⟨e, he, rfl⟩ := List.mem_map.1 hname
    exact hkeys e he rfl
  refine ⟨?_, rfl, ?_, fun d hd => ?_, fun n hn => ?_⟩
  · show decls.entries = decls'.entries.filter fun e => e.1 ≠ name
    rw [hdecls, hdecls', List.filter_append, List.filter_cons_of_neg (by simp),
      ← List.filter_append, Table.filter_ne_eq_self hnew]
  · show name ∈ decls'.entries.map Prod.fst
    rw [hdecls']
    simp
  · have hd' : (name, d) ∈ decls'.entries := hd
    rw [hdecls', List.mem_append, List.mem_cons, or_left_comm, ← List.mem_append, ← hdecls] at hd'
    rcases hd' with hd' | hd'
    · cases hd'
      exact hdecl
    · exact absurd rfl (hkeys (name, d) hd')
  · obtain ⟨e, he, rfl⟩ := List.mem_map.1 hn
    exact hkeys e he

end Hierarchy

theorem Value.Inserts.ofValue? (hins : Value.Inserts name decl v v') (he : v.entries? = some entries)
    (hkeys : ∀ e ∈ entries, Text.lower e.1.text ≠ Text.lower name)
    (hdecl : ∀ text, ¬ HasEntry decl text) :
    ∃ h h', Hierarchy.ofValue? v = some h ∧ Hierarchy.ofValue? v' = some h' ∧
      h.Inserts name h' := by
  have hnone : (TypeDecl.ofValue decl).fulfills = [] :=
    List.eq_nil_iff_forall_not_mem.2 fun text htext => hdecl text (hasEntry_iff.2 htext)
  cases hins with
  | map before after =>
    cases he
    exact ⟨_, _, rfl, rfl, Hierarchy.inserts_ofEntries hkeys hnone⟩
  | hierarchy duplicates hdecls hdecls' =>
    cases he
    refine ⟨_, _, rfl, rfl, Hierarchy.inserts_hierarchy hdecls hdecls' (fun e he => ?_) hnone⟩
    exact hkeys (.str e.1, .decl e.2) (List.mem_map_of_mem he)

/-! ## Names -/

namespace Hierarchy.Inserts

variable {h h' : Hierarchy} (hi : h.Inserts name h')
include hi

theorem eq_of_lower_eq {n : String} (hn : n ∈ h'.names) (hlower : Text.lower n = Text.lower name) :
    n = name := by
  by_contra hne
  exact hi.apart n ((hi.mem_names_iff hne).1 hn) hlower

/-- The new name is in no group, for nothing is like it. -/
theorem caseGroups_eq : h'.caseGroups = h.caseGroups := by
  have hnames : h.names = h'.names.filter fun n => Text.lower n ≠ Text.lower name := by
    rw [hi.names]
    refine List.filter_congr fun n hn => ?_
    have hiff : n ≠ name ↔ Text.lower n ≠ Text.lower name :=
      ⟨mt (hi.eq_of_lower_eq hn), mt (congrArg Text.lower)⟩
    exact decide_eq_decide.2 hiff
  have hone : (h'.names.filter fun n => Text.lower n == Text.lower name).length ≤ 1 := by
    have hself : (h'.names.filter fun n => Text.lower n == Text.lower name)
        = h'.names.filter fun n => n == name := by
      refine List.filter_congr fun n hn => ?_
      rw [Bool.eq_iff_iff, beq_iff_eq, beq_iff_eq]
      exact ⟨hi.eq_of_lower_eq hn, congrArg Text.lower⟩
    rw [hself, ← List.countP_eq_length_filter]
    exact List.nodup_iff_count_le_one.1 h'.decls.nodup name
  rw [Hierarchy.caseGroups_eq, Hierarchy.caseGroups_eq, Table.values, Table.values, hnames,
    ← Table.entries_group_filter, List.filter_map, List.filter_map, List.filter_filter]
  refine congrArg _ (List.filter_congr fun e he => ?_)
  by_cases hkey : e.1 = Text.lower name
  · obtain ⟨-, hmembers⟩ := Table.mem_entries_group_iff.1 he
    rw [hkey] at hmembers
    simp only [Function.comp_apply, hmembers, Nat.not_lt.2 hone, decide_false, Bool.false_and]
  · simp [hkey]

end Hierarchy.Inserts

/-! ## References -/

namespace Hierarchy.Inserts

variable {h h' : Hierarchy} {text : String} {x : TypeExpr} (hi : h.Inserts name h')
include hi

theorem resolve_of_lower_eq {other : String} (ho : Text.lower other = Text.lower name) :
    h.resolve other = none ∧ h'.resolve other = some name := by
  constructor
  · rw [resolve_eq_find?, List.find?_eq_none]
    intro n hn
    simpa [ho] using hi.apart n hn
  · obtain ⟨target, ht⟩ := (resolve_isSome_iff (h := h')).2 ⟨name, hi.declared, ho.symm⟩
    rw [ht]
    by_contra hne
    have hmem := (hi.mem_names_iff fun heq => hne (congrArg some heq)).1 (mem_names_of_resolve ht)
    exact hi.apart target hmem ((lower_eq_of_resolve ht).trans ho)

theorem resolve_of_lower_ne {other : String} (ho : Text.lower other ≠ Text.lower name) :
    h'.resolve other = h.resolve other := by
  rw [resolve_eq_find?, resolve_eq_find?, hi.names, List.find?_filter]
  refine congrArg (fun p => h'.names.find? p) (funext fun n => ?_)
  by_cases hn : n = name
  · subst hn
    simp [Ne.symm ho]
  · simp [hn, beq_eq_decide]

/-- What a reference comes to before and after: it finds the new type, or it leads where it led. -/
theorem ofText_cases (text : String) :
    (∃ x, Text.lower x.name = Text.lower name ∧
      Resolution.ofText h.canonical text = .undefined x ∧
      Resolution.ofText h'.canonical text = .declared x name) ∨
    (Resolution.ofText h'.canonical text = Resolution.ofText h.canonical text ∧
      ∀ x, Resolution.ofText h.canonical text = .undefined x →
        Text.lower x.name ≠ Text.lower name) := by
  unfold Resolution.ofText
  cases TypeExpr.parse text with
  | error e => exact .inr ⟨rfl, fun x hx => nomatch hx⟩
  | ok x =>
    dsimp only
    by_cases hx : Text.lower x.name = Text.lower name
    · obtain ⟨hnone, hsome⟩ := hi.resolve_of_lower_eq hx
      refine .inl ⟨x, hx, ?_, ?_⟩
      · rw [show h.canonical.get? (Text.lower x.name) = none from hnone]
      · rw [show h'.canonical.get? (Text.lower x.name) = some name from hsome]
    · have hsame : h'.canonical.get? (Text.lower x.name) = h.canonical.get? (Text.lower x.name) :=
        hi.resolve_of_lower_ne hx
      refine .inr ⟨by rw [hsame], fun y hy => ?_⟩
      cases hget : h.canonical.get? (Text.lower x.name) with
      | none => rw [hget] at hy; cases hy; exact hx
      | some target => rw [hget] at hy; cases hy

/-- Without the new type, the references to it have no target. -/
theorem target?_eq_filter (source text : String) :
    SupertypeRef.target? ⟨source, text, .ofText h.canonical text⟩
      = (SupertypeRef.target? ⟨source, text, .ofText h'.canonical text⟩).filter
          fun t => t ≠ name := by
  rcases hi.ofText_cases text with ⟨x, -, hundefined, hdeclared⟩ | ⟨hsame, -⟩
  · rw [hundefined, hdeclared]
    simp [SupertypeRef.target?, Option.filter]
  · rw [hsame]
    cases htarget : SupertypeRef.target? ⟨source, text, .ofText h.canonical text⟩ with
    | none => rfl
    | some t =>
      obtain ⟨x, -, hx⟩ := target?_ofText.1 htarget
      have hne : t ≠ name := fun heq => hi.name_notMem (heq ▸ mem_names_of_resolve (h := h) hx)
      simp [hne, Option.filter]

/-! ## The graph -/

theorem get?_decls {n : String} (hn : n ≠ name) : h'.decls.get? n = h.decls.get? n := by
  unfold Table.get?
  rw [hi.decls, Table.find?_filter_ne hn]

/-- The new type has no edges, and without it the graph is the one before. -/
theorem hidesDeadEnd : Graph.HidesDeadEnd name (.ofHierarchy h') (.ofHierarchy h) := by
  have hdead : (Graph.ofHierarchy h').successors name = [] := by
    rw [successors_ofHierarchy]
    cases hget : h'.decls.get? name with
    | none => rfl
    | some d =>
      simp only [Option.map_some, Option.getD_some,
        hi.fulfills_eq_nil d (Table.get?_eq_some_iff.1 hget), List.filterMap_nil]
  refine ⟨?_, fun n => ?_, hdead⟩
  · rw [nodes_ofHierarchy, nodes_ofHierarchy, hi.names]
  · by_cases hn : n = name
    · subst hn
      have hnone : h.decls.get? n = none := Table.get?_eq_none_iff.2 hi.name_notMem
      rw [hdead, successors_ofHierarchy, hnone]
      rfl
    · rw [successors_ofHierarchy, successors_ofHierarchy, hi.get?_decls hn]
      cases h.decls.get? n with
      | none => rfl
      | some d =>
        simp only [Option.map_some, Option.getD_some, Graph.hideEdges, List.filter_filterMap,
          hi.target?_eq_filter]
        refine List.filterMap_congr fun text _ => ?_
        cases SupertypeRef.target? ⟨n, text, .ofText h'.canonical text⟩ with
        | none => rfl
        | some t => by_cases ht : t = name <;> simp [Option.filter, ht]

end Hierarchy.Inserts

end HierarchyLint
