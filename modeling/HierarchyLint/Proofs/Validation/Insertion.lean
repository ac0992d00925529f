import HierarchyLint.Proofs.Hierarchy.Insertion
import HierarchyLint.Proofs.Validation.Kinds

/-!
# Declaring a type that was missing

A type that references ask for in vain can be declared without references of its own. Then the
diagnostics about these references are gone and there may be new ones about the spelling of its
name. All others stay as they were, in their order, and so do the cycles and their chains: a check
goes through the other declarations as before, and a dead end lies on no cycle.
-/

namespace HierarchyLint

/-- The diagnostic is about the spelling of the name: it holds an illegal character, or it acts
like a generic parameter. -/
def Diagnostic.FaultsName (name : String) (d : Diagnostic) : Prop :=
  (d.kind = .illegalCharacter ∨ d.kind = .genericName)
    ∧ d.args.head?.bind Value.str? = some name

/-- The diagnostic says of a reference that no type has its name, which is the given one but for
case. -/
def Diagnostic.Misses (name : String) (d : Diagnostic) : Prop :=
  d.kind = .undefinedSupertype
    ∧ (d.args[1]?.bind Value.str?).map Text.lower = some (Text.lower name)

instance (name : String) : DecidablePred (Diagnostic.FaultsName name) :=
  fun d => inferInstanceAs (Decidable ((d.kind = .illegalCharacter ∨ d.kind = .genericName) ∧ _))

instance (name : String) : DecidablePred (Diagnostic.Misses name) :=
  fun d => inferInstanceAs (Decidable (d.kind = .undefinedSupertype ∧ _))

/-- The diagnostics with a property are those of the findings whose diagnostics have it. -/
theorem filter_validate_diagnostic (c : Config) (v : Value) (p : Diagnostic → Bool) :
    (validate c v).filter p
      = ((findings c v).filter fun f => p (f.diagnostic c)).filterMap (Finding.diagnose? c) := by
  rw [validate, filterMap_diagnose?_eq, filterMap_diagnose?_eq, List.filter_map,
    List.filter_filter, List.filter_filter]
  exact congrArg _ (List.filter_congr fun f _ => Bool.and_comm _ _)

theorem flatMap_filter_of_nil {α β : Type} {p : α → Bool} {g : α → List β} {l : List α}
    (h : ∀ a ∈ l, p a = false → g a = []) : (l.filter p).flatMap g = l.flatMap g := by
  induction l with
  | nil => rfl
  | cons a l ih =>
    obtain ⟨ha, hl⟩ := List.forall_mem_cons.1 h
    cases hp : p a with
    | true => rw [List.filter_cons_of_pos hp, List.flatMap_cons, List.flatMap_cons, ih hl]
    | false =>
      rw [List.filter_cons_of_neg (by simp [hp]), List.flatMap_cons, ih hl, ha hp, List.nil_append]

namespace Hierarchy.Inserts

variable {c : Config} {name : String} {h h' : Hierarchy}

/-! ## Checks of other kinds -/

theorem filter_faultsName_eq_self (fs : List Finding)
    (hfs : ∀ f ∈ fs, f.kind ≠ .illegalCharacter ∧ f.kind ≠ .genericName) :
    fs.filter (fun f => ¬ (f.diagnostic c).FaultsName name) = fs := by
  refine List.filter_eq_self.2 fun f hf => ?_
  have hnot : ¬ (f.diagnostic c).FaultsName name :=
    fun hd => hd.1.elim (hfs f hf).1 (hfs f hf).2
  simpa using hnot

theorem filter_misses_eq_self (fs : List Finding)
    (hfs : ∀ f ∈ fs, f.kind ≠ .undefinedSupertype) :
    fs.filter (fun f => ¬ (f.diagnostic c).Misses name) = fs := by
  refine List.filter_eq_self.2 fun f hf => ?_
  have hnot : ¬ (f.diagnostic c).Misses name := fun hd => hfs f hf hd.1
  simpa using hnot

variable (hi : h.Inserts name h')
include hi

theorem nameConflicts_eq : h'.nameConflicts = h.nameConflicts := by
  unfold nameConflicts
  rw [hi.caseGroups_eq, hi.duplicates]

theorem circularDependencies_eq (c : Config) :
    circularDependencies c (.ofHierarchy h') = circularDependencies c (.ofHierarchy h) := by
  unfold circularDependencies
  rw [Graph.cycles_hide hi.hidesDeadEnd]

/-! ## Checks of names -/

theorem filter_illegalCharacters (c : Config) :
    h'.illegalCharacters.filter (fun f => ¬ (f.diagnostic c).FaultsName name)
      = h.illegalCharacters := by
  unfold illegalCharacters
  rw [hi.names, List.filter_filterMap, List.filterMap_filter]
  refine List.filterMap_congr fun n _ => ?_
  cases hfind : n.toList.findSome? fun char =>
      (illegalSort? char).map fun sort => Finding.illegalCharacter n sort char with
  | none => simp
  | some f =>
    obtain ⟨char, -, hf⟩ := List.exists_of_findSome?_eq_some hfind
    obtain ⟨sort, -, rfl⟩ := Option.map_eq_some_iff.1 hf
    have hfaults : ((Finding.illegalCharacter n sort char).diagnostic c).FaultsName name
        ↔ n = name :=
      ⟨fun hd => Option.some.inj hd.2, fun hn => ⟨.inl rfl, congrArg some hn⟩⟩
    simp [Option.filter, hfaults]

theorem filter_genericNames (c : Config) :
    h'.genericNames.filter (fun f => ¬ (f.diagnostic c).FaultsName name) = h.genericNames := by
  unfold genericNames
  rw [hi.names, List.filter_map, List.filter_filter, List.filter_filter]
  refine congrArg _ (List.filter_congr fun n _ => ?_)
  have hfaults : ((Finding.genericName n).diagnostic c).FaultsName name ↔ n = name :=
    ⟨fun hd => Option.some.inj hd.2, fun hn => ⟨.inr rfl, congrArg some hn⟩⟩
  simp [hfaults, Bool.and_comm]

/-! ## The check of references -/

theorem supertypeFinding?_eq_filter (c : Config) (source text : String) :
    supertypeFinding? source ⟨source, text, .ofText h'.canonical text⟩
      = (supertypeFinding? source ⟨source, text, .ofText h.canonical text⟩).filter
          fun f => ¬ (f.diagnostic c).Misses name := by
  rcases hi.ofText_cases text with ⟨x, hx, hundefined, hdeclared⟩ | ⟨hsame, hother⟩
  · have hmisses : ((Finding.undefinedSupertype source x.name).diagnostic c).Misses name :=
      ⟨rfl, congrArg some hx⟩
    rw [hundefined, hdeclared]
    simp [supertypeFinding?, Option.filter, hmisses]
  · rw [hsame]
    cases hr : Resolution.ofText h.canonical text with
    | unparseable e =>
      have hnot : ¬ ((Finding.unparseableSupertype source text e).diagnostic c).Misses name :=
        fun hd => nomatch hd.1
      simp [supertypeFinding?, Option.filter, hnot]
    | undefined x =>
      have hnot : ¬ ((Finding.undefinedSupertype source x.name).diagnostic c).Misses name :=
        fun hd => hother x hr (Option.some.inj hd.2)
      simp [supertypeFinding?, Option.filter, hnot]
    | declared x target => rfl

omit hi in
theorem badSupertypes_eq_flatMap (h : Hierarchy) :
    badSupertypes h.supertypes = h.decls.entries.flatMap fun e =>
      e.2.fulfills.filterMap fun text =>
        supertypeFinding? e.1 ⟨e.1, text, .ofText h.canonical text⟩ := by
  unfold badSupertypes supertypes Table.mapValues
  rw [List.flatMap_map]
  refine List.flatMap_congr fun e _ => ?_
  rw [List.filterMap_map]
  rfl

theorem badSupertypes_eq_filter (c : Config) :
    badSupertypes h'.supertypes
      = (badSupertypes h.supertypes).filter fun f => ¬ (f.diagnostic c).Misses name := by
  have hnew : ∀ e ∈ h'.decls.entries, decide (e.1 ≠ name) = false →
      (e.2.fulfills.filterMap fun text =>
        supertypeFinding? e.1 ⟨e.1, text, .ofText h'.canonical text⟩) = [] := by
    rintro ⟨n, d⟩ he hn
    obtain rfl : n = name := by simpa using hn
    rw [hi.fulfills_eq_nil d he]
    rfl
  rw [badSupertypes_eq_flatMap, badSupertypes_eq_flatMap, hi.decls, List.filter_flatMap,
    ← flatMap_filter_of_nil hnew]
  refine List.flatMap_congr fun e _ => ?_
  rw [List.filter_filterMap]
  exact List.filterMap_congr fun text _ => hi.supertypeFinding?_eq_filter c e.1 text

/-! ## All checks -/

theorem filter_findings_eq (c : Config) :
    (h'.findings c).filter (fun f => ¬ (f.diagnostic c).FaultsName name)
      = (h.findings c).filter fun f => ¬ (f.diagnostic c).Misses name := by
  have hconflicts : ∀ f ∈ h.nameConflicts, f.kind = .nameConflict :=
    fun f hf => kind_of_mem_nameConflicts hf
  have hcircular : ∀ f ∈ circularDependencies c (.ofHierarchy h), f.kind = .circularDependency :=
    fun f hf => kind_of_mem_circularDependencies hf
  have hbad : ∀ f ∈ badSupertypes h'.supertypes,
      f.kind ≠ .illegalCharacter ∧ f.kind ≠ .genericName := by
    intro f hf
    rcases kind_of_mem_badSupertypes hf with hk | hk
    · simp [hk]
    · simp [hk]
  have hcycles := hi.circularDependencies_eq c
  unfold Graph.ofHierarchy at hcycles hcircular
  unfold findings
  simp only [List.filter_append]
  rw [hi.nameConflicts_eq, hcycles, hi.filter_illegalCharacters, hi.filter_genericNames,
    filter_faultsName_eq_self h.nameConflicts fun f hf => by simp [hconflicts f hf],
    filter_faultsName_eq_self _ hbad,
    filter_faultsName_eq_self (circularDependencies c _) fun f hf => by
      simp [hcircular f hf],
    filter_misses_eq_self h.nameConflicts fun f hf => by simp [hconflicts f hf],
    filter_misses_eq_self h.illegalCharacters fun f hf => by
      simp [kind_of_mem_illegalCharacters hf],
    filter_misses_eq_self h.genericNames fun f hf => by
      simp [kind_of_mem_genericNames hf],
    filter_misses_eq_self (circularDependencies c _) fun f hf => by
      simp [hcircular f hf],
    ← hi.badSupertypes_eq_filter c]

end Hierarchy.Inserts

/-- If a type without references is declared under a name that no key has, not even but for case,
then apart from what there is to say about the spelling of the name, the diagnostics are those
before without those that missed the type. The cycles are the same. -/
theorem declaring_missing_type_drops_its_diagnostics (c : Config) (v v' : Value)
    (entries : List (Value × Value)) (name : String) (decl : Value)
    (he : v.entries? = some entries)
    (hkeys : ∀ e ∈ entries, Text.lower e.1.text ≠ Text.lower name)
    (hdecl : ∀ text, ¬ HasEntry decl text) (hins : Value.Inserts name decl v v') :
    (validate c v').filter (fun d => ¬ d.FaultsName name)
        = (validate c v).filter (fun d => ¬ d.Misses name) ∧
      ∃ h h', Hierarchy.ofValue? v = some h ∧ Hierarchy.ofValue? v' = some h' ∧
        ∀ mode, (Graph.ofHierarchy h').cycles mode = (Graph.ofHierarchy h).cycles mode := by
  obtain ⟨h, h', hv, hv', hi⟩ := hins.ofValue? he hkeys hdecl
  refine ⟨?_, h, h', hv, hv', fun mode => (Graph.cycles_hide hi.hidesDeadEnd mode).symm⟩
  rw [filter_validate_diagnostic, filter_validate_diagnostic, findings_eq hv, findings_eq hv',
    hi.filter_findings_eq]

/-- Two types on a cycle that also refer to types which do not exist, one of them in both cases. -/
def askingEntries : List (Value × Value) :=
  [(.str "Left", .map [(.str "fulfills", .list [.str "s", .str "gone", .str "Right"])]),
    (.str "Right", .map [(.str "fulfills", .tuple [.str "ſ[Left]", .str "S", .str "left"])])]

/-- The same with the type declared in between; none of its references is a string. -/
def answeredEntries : List (Value × Value) :=
  askingEntries.take 1
    ++ (.str "S", .map [(.str "fulfills", .list [.null, .int 3])]) :: askingEntries.drop 1

theorem declaring_askedType_drops_its_diagnostics :
    (∀ e ∈ askingEntries, Text.lower e.1.text ≠ Text.lower "S") ∧
      (validate {} (.map askingEntries)).map (fun d => (d.kind, decide (d.Misses "S")))
        = [(.undefinedSupertype, true), (.undefinedSupertype, false), (.undefinedSupertype, false),
          (.undefinedSupertype, true), (.circularDependency, false)] ∧
      (validate {} (.map answeredEntries)).map (fun d => (d.kind, decide (d.FaultsName "S")))
        = [(.genericName, true), (.undefinedSupertype, false), (.undefinedSupertype, false),
          (.circularDependency, false)] ∧
      (validate {} (.map answeredEntries)).filter (fun d => ¬ d.FaultsName "S")
        = (validate {} (.map askingEntries)).filter fun d => ¬ d.Misses "S" := by
  have he : Value.entries? (.map askingEntries) = some askingEntries := rfl
  have hkeys : ∀ e ∈ askingEntries, Text.lower e.1.text ≠ Text.lower "S" := by decide +kernel
  have hdecl : ∀ text, ¬ HasEntry (.map [(.str "fulfills", .list [.null, .int 3])]) text := by
    intro text htext
    have hnone : (TypeDecl.ofValue (.map [(.str "fulfills", .list [.null, .int 3])])).fulfills
        = [] := by decide +kernel
    rw [hasEntry_iff, hnone] at htext
    cases htext
  have hins : Value.Inserts "S" (.map [(.str "fulfills", .list [.null, .int 3])])
      (.map askingEntries) (.map answeredEntries) :=
    .map (askingEntries.take 1) (askingEntries.drop 1)
  have hvalidate :=
    (declaring_missing_type_drops_its_diagnostics {} _ _ _ _ _ he hkeys hdecl hins).1
  refine ⟨hkeys, ?_, ?_, hvalidate⟩
  · decide +kernel
  · decide +kernel

end HierarchyLint
