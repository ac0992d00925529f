import HierarchyLint.Proofs.Hierarchy.CaseGroups
import HierarchyLint.Proofs.OccursOnce
import HierarchyLint.Proofs.Text.Alike
import HierarchyLint.Proofs.Validation.NameConflicts

/-!
# Names that differ by case alone

A reference and the check for conflicts compare lower-case forms of whole names. Names that are
alike character by character have one such form unless a capital sigma ends a word in one of them
and not in the other. If they have one, every hierarchy takes them for one name and reports both
together if it declares both, once. If they do not, it keeps them apart, though they differ by case
alone.
-/

namespace HierarchyLint

variable {c : Config} {h : Hierarchy} {a b n first : String}
  {others : List String} {keys : List Value}

/-- The diagnostic of a conflict names the text: as the first name, or among the others. -/
def Diagnostic.Names (d : Diagnostic) (n : String) : Prop :=
  d.args.head? = some (.str n) ∨ ∃ other ∈ d.others, other.text = n

/-! ## Which names a conflict shows -/

theorem names_groupConflict_iff :
    ((Finding.nameConflict first (others.map .str)).diagnostic c).Names n ↔
      n ∈ first :: others := by
  have hhead : ((Finding.nameConflict first (others.map .str)).diagnostic c).args.head?
      = some (.str first) := rfl
  have hothers : ((Finding.nameConflict first (others.map .str)).diagnostic c).others
      = others.map .str := rfl
  rw [Diagnostic.Names, hhead, hothers]
  simp [Value.text, eq_comm]

theorem eq_of_names_repeated (hkeys : ∀ key ∈ keys, key.text = first)
    (hd : ((Finding.nameConflict first keys).diagnostic c).Names n) : n = first := by
  rcases hd with hhead | ⟨key, hkey, rfl⟩
  · exact (Value.str.inj (Option.some.inj hhead)).symm
  · exact hkeys key hkey

namespace Hierarchy

/-- The further keys that the hierarchy records by a name are spellings of it. -/
def RecordsSpellings (h : Hierarchy) : Prop := ∀ d ∈ h.duplicates, ∀ key ∈ d.2, key.text = d.1

theorem recordsSpellings_ofEntries (entries : List (Value × Value)) :
    (ofEntries entries).RecordsSpellings := by
  rintro ⟨n, keys⟩ hd key hkey
  obtain ⟨-, rfl⟩ := mem_duplicates_ofEntries_iff.1 hd
  obtain ⟨e, he, rfl⟩ := List.mem_map.1 (List.mem_of_mem_tail hkey)
  exact beq_iff_eq.1 (List.mem_filter.1 he).2

theorem exists_mem_caseGroups_iff (ha : a ∈ h.names) (hb : b ∈ h.names) (hne : a ≠ b) :
    (∃ group ∈ h.caseGroups, a ∈ group ∧ b ∈ group) ↔ Text.lower a = Text.lower b := by
  constructor
  · rintro ⟨group, hg, hag, hbg⟩
    rw [eq_sameCase_of_mem hg hag] at hbg
    exact (mem_sameCase_iff.1 hbg).2.symm
  · intro hl
    exact ⟨_, sameCase_mem_caseGroups ha hb hne hl, mem_sameCase_iff.2 ⟨ha, rfl⟩,
      mem_sameCase_iff.2 ⟨hb, hl.symm⟩⟩

def groupDiagnostics (c : Config) (h : Hierarchy) : List Diagnostic :=
  h.caseGroups.filterMap fun
    | [] => none
    | first :: others => some ((Finding.nameConflict first (others.map .str)).diagnostic c)

theorem map_nameConflicts (c : Config) (h : Hierarchy) :
    h.nameConflicts.map (Finding.diagnostic c)
      = h.groupDiagnostics c
        ++ h.duplicates.map fun d => (Finding.nameConflict d.1 d.2).diagnostic c := by
  rw [nameConflicts, List.map_append, List.map_map, List.map_filterMap, groupDiagnostics]
  refine congrArg₂ (· ++ ·) (List.filterMap_congr fun group _ => ?_) rfl
  cases group <;> rfl

/-- A group has a diagnostic that shows its names and no others. -/
theorem exists_mem_groupDiagnostics (c : Config) {group : List String} (hg : group ∈ h.caseGroups) :
    ∃ d ∈ h.groupDiagnostics c, ∀ n, d.Names n ↔ n ∈ group := by
  cases group with
  | nil => exact absurd rfl (ne_nil_of_mem_caseGroups hg)
  | cons first others =>
    exact ⟨_, List.mem_filterMap.2 ⟨_, hg, rfl⟩, fun n => names_groupConflict_iff⟩

theorem exists_of_mem_groupDiagnostics {d : Diagnostic} (hd : d ∈ h.groupDiagnostics c) :
    ∃ group ∈ h.caseGroups, ∀ n, d.Names n ↔ n ∈ group := by
  obtain ⟨group, hg, hgroup⟩ := List.mem_filterMap.1 hd
  cases group with
  | nil => cases hgroup
  | cons first others =>
    cases hgroup
    exact ⟨_, hg, fun n => names_groupConflict_iff⟩

theorem pairwise_groupDiagnostics (c : Config) (h : Hierarchy) (n : String) :
    (h.groupDiagnostics c).Pairwise fun d e => ¬ (d.Names n ∧ e.Names n) := by
  refine List.Pairwise.filterMap _ ?_ (List.nodup_flatten.1 h.nodup_flatten_caseGroups).2
  intro g k hgk d hd e he
  cases g with
  | nil => cases hd
  | cons first others =>
    cases k with
    | nil => cases he
    | cons first' others' =>
      cases hd
      cases he
      rintro ⟨hn, hn'⟩
      exact hgk (names_groupConflict_iff.1 hn) (names_groupConflict_iff.1 hn')

/-- Two different declared names stand in one diagnostic about names, or in none if their lower-case
forms differ. -/
theorem occursOnce_names_iff (hkeys : h.RecordsSpellings) (ha : a ∈ h.names) (hb : b ∈ h.names)
    (hne : a ≠ b) :
    OccursOnce (fun d => d.Names a ∧ d.Names b) (h.nameConflicts.map (Finding.diagnostic c))
      ↔ Text.lower a = Text.lower b := by
  have hrepeated : ∀ d ∈ h.duplicates.map fun d => (Finding.nameConflict d.1 d.2).diagnostic c,
      ¬ (d.Names a ∧ d.Names b) := by
    intro d hd ⟨hda, hdb⟩
    obtain ⟨e, he, rfl⟩ := List.mem_map.1 hd
    have heq := eq_of_names_repeated (hkeys e he) hdb
    exact hne ((eq_of_names_repeated (hkeys e he) hda).trans heq.symm)
  rw [← exists_mem_caseGroups_iff ha hb hne, map_nameConflicts]
  constructor
  · intro honce
    obtain ⟨d, hd, hda, hdb⟩ := honce.exists
    rcases List.mem_append.1 hd with hd | hd
    · obtain ⟨group, hg, hnames⟩ := exists_of_mem_groupDiagnostics hd
      exact ⟨group, hg, (hnames a).1 hda, (hnames b).1 hdb⟩
    · exact absurd ⟨hda, hdb⟩ (hrepeated d hd)
  · rintro ⟨group, hg, hag, hbg⟩
    obtain ⟨d, hd, hnames⟩ := exists_mem_groupDiagnostics c hg
    refine occursOnce_of_pairwise (List.pairwise_append.2 ⟨?_, ?_, ?_⟩)
      ⟨d, List.mem_append_left _ hd, (hnames a).2 hag, (hnames b).2 hbg⟩
    · exact (pairwise_groupDiagnostics c _ a).imp fun hno hboth => hno ⟨hboth.1.1, hboth.2.1⟩
    · exact List.pairwise_of_forall_mem_list fun d hd e _ hboth => hrepeated d hd hboth.1
    · exact fun d _ e he hboth => hrepeated e he hboth.2

theorem forall_resolve_eq_iff :
    (∀ h : Hierarchy, h.resolve a = h.resolve b) ↔ Text.lower a = Text.lower b := by
  constructor
  · intro hall
    let h := ofEntries [(.str a, .null)]
    have ha : h.resolve a = some a :=
      resolve_eq_some_iff_first.2 ⟨[], [], rfl, rfl, fun n hn => nomatch hn⟩
    exact lower_eq_of_resolve ((hall h).symm.trans ha)
  · exact fun hl h => resolve_congr hl

end Hierarchy

/-- Names that are alike but for case, character by character, are looked up alike in every
hierarchy exactly if the same of their characters are capital sigmas that end words. If a hierarchy
declares both, it is then and only then that they stand in one group, and that exactly one
diagnostic about conflicts names both. -/
theorem alike_names_match_iff (hab : Text.Alike a b) :
    ((∀ h : Hierarchy, h.resolve a = h.resolve b) ↔
      ∀ i, Text.FinalSigma a i ↔ Text.FinalSigma b i) ∧
    (∀ h : Hierarchy, a ∈ h.names → b ∈ h.names → a ≠ b →
      ((∃ group ∈ h.caseGroups, a ∈ group ∧ b ∈ group) ↔
        ∀ i, Text.FinalSigma a i ↔ Text.FinalSigma b i)) ∧
    ∀ v h, Hierarchy.ofValue? v = some h → h.RecordsSpellings → a ∈ h.names → b ∈ h.names → a ≠ b →
      ∀ c : Config, c.isEnabled .nameConflict = true →
        (OccursOnce (fun d => d.Names a ∧ d.Names b) (diagnosticsOf c .nameConflict v) ↔
          ∀ i, Text.FinalSigma a i ↔ Text.FinalSigma b i) := by
  rw [← Text.lower_eq_iff_finalSigma hab]
  refine ⟨Hierarchy.forall_resolve_eq_iff,
    fun h ha hb hne => Hierarchy.exists_mem_caseGroups_iff ha hb hne,
    fun v h hv hkeys ha hb hne c hc => ?_⟩
  rw [diagnosticsOf_nameConflict hc hv]
  exact Hierarchy.occursOnce_names_iff hkeys ha hb hne

/-- Two spellings that end in a capital sigma and one that ends in a small one. -/
def wiseEntries : List (Value × Value) :=
  [(.str "ΣΟΦΟΣ", .null), (.str "σοφοσ", .null), (.str "σοφοΣ", .null)]

theorem alike_names_of_wiseEntries :
    Text.Alike "ΣΟΦΟΣ" "σοφοΣ" ∧
    (∀ h : Hierarchy, h.resolve "ΣΟΦΟΣ" = h.resolve "σοφοΣ") ∧
    OccursOnce (fun d => d.Names "ΣΟΦΟΣ" ∧ d.Names "σοφοΣ")
      (diagnosticsOf {} .nameConflict (.map wiseEntries)) := by
  have hab : Text.Alike "ΣΟΦΟΣ" "σοφοΣ" := by decide +kernel
  have hsigma : ∀ i, Text.FinalSigma "ΣΟΦΟΣ" i ↔ Text.FinalSigma "σοφοΣ" i :=
    (Text.lower_eq_iff_finalSigma hab).1 (by decide +kernel)
  have hmatch := alike_names_match_iff hab
  have ha : "ΣΟΦΟΣ" ∈ (Hierarchy.ofEntries wiseEntries).names := by decide +kernel
  have hb : "σοφοΣ" ∈ (Hierarchy.ofEntries wiseEntries).names := by decide +kernel
  exact ⟨hab, hmatch.1.2 hsigma, (hmatch.2.2 (.map wiseEntries) _ rfl
    (Hierarchy.recordsSpellings_ofEntries wiseEntries) ha hb (by decide) {} rfl).2 hsigma⟩

/-- A name that ends in a small sigma, and the same with a capital one. -/
def sigmaNames : List (Value × Value) := [(.str "aσ", .null), (.str "aΣ", .null)]

/-- Names that differ by case alone are kept apart. -/
theorem alike_names_of_sigmaNames :
    Text.Alike "aσ" "aΣ" ∧
    (Hierarchy.ofEntries (sigmaNames.take 1)).resolve "aσ" = some "aσ" ∧
    (Hierarchy.ofEntries (sigmaNames.take 1)).resolve "aΣ" = none ∧
    (Hierarchy.ofEntries sigmaNames).names = ["aσ", "aΣ"] ∧
    (Hierarchy.ofEntries sigmaNames).caseGroups = [] ∧
    diagnosticsOf {} .nameConflict (.map sigmaNames) = [] := by
  have halike : Text.Alike "aσ" "aΣ" := by decide +kernel
  have hfound : (Hierarchy.ofEntries (sigmaNames.take 1)).resolve "aσ" = some "aσ" := by
    decide +kernel
  have hnone : (Hierarchy.ofEntries (sigmaNames.take 1)).resolve "aΣ" = none := by decide +kernel
  have hnames : (Hierarchy.ofEntries sigmaNames).names = ["aσ", "aΣ"] := by decide +kernel
  have hgroups : (Hierarchy.ofEntries sigmaNames).caseGroups = [] := by decide +kernel
  have hsilent : diagnosticsOf {} .nameConflict (.map sigmaNames) = [] :=
    List.isEmpty_iff.1 (by decide +kernel)
  exact ⟨halike, hfound, hnone, hnames, hgroups, hsilent⟩

end HierarchyLint
