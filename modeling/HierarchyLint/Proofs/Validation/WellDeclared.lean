import HierarchyLint.Proofs.Validation.Checks

/-!
# Mappings without problems

`WellDeclared` says of the entries of a mapping what a hierarchy should be like, in terms of the
keys, the grammar of type expressions and lower case alone. Validation reports nothing about a
value exactly if it is a mapping with such entries: it misses no problem and invents none.
-/

namespace HierarchyLint

open Relation (TransGen)
open TypeExpr (Spells)

/-- Both keys stand in the mapping, and an entry of the first one spells an expression with the
name of the second one, but for case. -/
def Refers (entries : List (Value × Value)) (a b : Value × Value) : Prop :=
  a ∈ entries ∧ b ∈ entries ∧ ∃ text e, HasEntry a.2 text ∧ Spells text e ∧
    Text.lower e.name = Text.lower b.1.text

/-- The entries of a mapping declare a hierarchy without problems. -/
structure WellDeclared (entries : List (Value × Value)) : Prop where
  /-- No two keys have one text, not even but for case. -/
  distinct : (entries.map fun a => Text.lower a.1.text).Nodup
  legal : ∀ a ∈ entries, ∀ c ∈ a.1.text.toList, c ≠ ',' ∧ c ≠ ' ' ∧ c ≠ '[' ∧ c ≠ ']'
  not_generic : ∀ a ∈ entries, a.1.text.length ≠ 1
  /-- Every entry is a type expression, and some key has the name in front. -/
  refers : ∀ a ∈ entries, ∀ text, HasEntry a.2 text →
    ∃ e, Spells text e ∧ ∃ b ∈ entries, Text.lower e.name = Text.lower b.1.text
  acyclic : ∀ a, ¬ TransGen (Refers entries) a a

namespace Hierarchy

variable {entries : List (Value × Value)} {a b : Value × Value}

/-! ## Distinct keys -/

section
variable (hd : (entries.map fun a => Text.lower a.1.text).Nodup)
include hd

theorem mem_names_ofEntries {name : String} :
    name ∈ (ofEntries entries).names ↔ ∃ a ∈ entries, a.1.text = name := by
  rw [names_ofEntries (nodup_text hd), List.mem_map]

theorem eq_of_text_eq (ha : a ∈ entries) (hb : b ∈ entries) (h : a.1.text = b.1.text) : a = b :=
  List.inj_on_of_nodup_map (nodup_text hd) ha hb h

theorem get?_ofEntries_eq_some_iff {name : String} {d : TypeDecl} :
    (ofEntries entries).decls.get? name = some d ↔
      ∃ a ∈ entries, a.1.text = name ∧ TypeDecl.ofValue a.2 = d := by
  constructor
  · intro h
    obtain ⟨a, ha, rfl⟩ := (mem_names_ofEntries hd).1 (mem_names_iff.2 ⟨d, h⟩)
    rw [get?_ofEntries (nodup_text hd) ha] at h
    exact ⟨a, ha, rfl, Option.some.inj h⟩
  · rintro ⟨a, ha, rfl, rfl⟩
    exact get?_ofEntries (nodup_text hd) ha

theorem refersBy_iff (ha : a ∈ entries) {text m : String} :
    (ofEntries entries).RefersBy a.1.text text m ↔
      HasEntry a.2 text ∧ ∃ e, Spells text e ∧ ∃ b ∈ entries, b.1.text = m ∧
        Text.lower e.name = Text.lower b.1.text := by
  have hlower := (distinct_iff.2 hd).1
  unfold RefersBy
  simp only [get?_ofEntries (nodup_text hd) ha, parse_eq_ok_iff_spells,
    resolve_eq_some_iff hlower, mem_names_ofEntries hd, hasEntry_iff]
  constructor
  · rintro ⟨_, e, hdecl, htext, he, ⟨b, hb, rfl⟩, hm⟩
    cases hdecl
    exact ⟨htext, e, he, b, hb, rfl, hm.symm⟩
  · rintro ⟨htext, e, he, b, hb, rfl, hm⟩
    exact ⟨_, e, rfl, htext, he, ⟨b, hb, rfl⟩, hm.symm⟩

theorem leads_of_refers (h : Refers entries a b) :
    (Graph.ofHierarchy (ofEntries entries)).Leads a.1.text b.1.text := by
  obtain ⟨ha, hb, text, e, htext, he, hlower⟩ := h
  exact leads_iff.2 ⟨text, (refersBy_iff hd ha).2 ⟨htext, e, he, b, hb, rfl, hlower⟩⟩

theorem refers_of_leads (ha : a ∈ entries) {m : String}
    (h : (Graph.ofHierarchy (ofEntries entries)).Leads a.1.text m) :
    ∃ b, Refers entries a b ∧ b.1.text = m := by
  obtain ⟨text, ht⟩ := leads_iff.1 h
  obtain ⟨htext, e, he, b, hb, hm, hlower⟩ := (refersBy_iff hd ha).1 ht
  exact ⟨b, ⟨ha, hb, text, e, htext, he, hlower⟩, hm⟩

theorem refers_of_reaches (ha : a ∈ entries) {m : String}
    (h : TransGen (Graph.ofHierarchy (ofEntries entries)).Leads a.1.text m) :
    ∃ b ∈ entries, TransGen (Refers entries) a b ∧ b.1.text = m := by
  induction h with
  | single h =>
    obtain ⟨b, hb, hm⟩ := refers_of_leads hd ha h
    exact ⟨b, hb.2.1, .single hb, hm⟩
  | tail _ h ih =>
    obtain ⟨b, hb, hab, rfl⟩ := ih
    obtain ⟨c, hc, hm⟩ := refers_of_leads hd hb h
    exact ⟨c, hc.2.1, hab.tail hc, hm⟩

/-- The graph has a cycle of names exactly if the mapping has a cycle of keys. -/
theorem acyclic_iff : (Graph.ofHierarchy (ofEntries entries)).Acyclic ↔
    ∀ a, ¬ TransGen (Refers entries) a a := by
  constructor
  · intro h a ha
    have hedge : ∀ a b, Refers entries a b →
        (Graph.ofHierarchy (ofEntries entries)).Leads a.1.text b.1.text :=
      fun a b => leads_of_refers hd
    exact h _ (ha.lift (fun a : Value × Value => a.1.text) hedge)
  · intro h n hn
    obtain ⟨_, hleads, -⟩ := Relation.TransGen.head'_iff.1 hn
    obtain ⟨_, d, -, hdecl, -⟩ := leads_iff.1 hleads
    obtain ⟨a, ha, rfl⟩ := (mem_names_ofEntries hd).1 (mem_names_iff.2 ⟨d, hdecl⟩)
    obtain ⟨b, hb, hab, heq⟩ := refers_of_reaches hd ha hn
    obtain rfl := eq_of_text_eq hd hb ha heq
    exact h _ hab

end

theorem findings_ofEntries_eq_nil_iff {c : Config} (hc : c.disabled = []) :
    (ofEntries entries).findings c = [] ↔ WellDeclared entries := by
  rw [findings_eq_nil_iff hc, distinct_iff]
  constructor
  · rintro ⟨hd, hlegal, hgeneric, hrefers, hacyclic⟩
    simp only [mem_names_ofEntries hd, forall_exists_index, and_imp, forall_apply_eq_imp_iff₂]
      at hlegal hgeneric
    refine ⟨hd, hlegal, hgeneric, fun a ha text htext => ?_, (acyclic_iff hd).1 hacyclic⟩
    obtain ⟨m, hm⟩ := hrefers _ _ (get?_ofEntries (nodup_text hd) ha) text (hasEntry_iff.1 htext)
    obtain ⟨-, e, he, b, hb, -, hlower⟩ := (refersBy_iff hd ha).1 hm
    exact ⟨e, he, b, hb, hlower⟩
  · intro hw
    have hd := hw.distinct
    simp only [mem_names_ofEntries hd, forall_exists_index, and_imp, forall_apply_eq_imp_iff₂]
    refine ⟨hd, hw.legal, hw.not_generic, fun n d hdecl text htext => ?_,
      (acyclic_iff hd).2 hw.acyclic⟩
    obtain ⟨a, ha, rfl, rfl⟩ := (get?_ofEntries_eq_some_iff hd).1 hdecl
    have hentry := hasEntry_iff.2 htext
    obtain ⟨e, he, b, hb, hlower⟩ := hw.refers a ha text hentry
    exact ⟨b.1.text, (refersBy_iff hd ha).2 ⟨hentry, e, he, b, hb, rfl, hlower⟩⟩

end Hierarchy

/-- Validation with every check switched on reports nothing exactly if the value is a mapping whose
entries are well declared, whatever cycles are to be reported and with whatever severity. -/
theorem validate_eq_nil_iff_wellDeclared (mode : CycleReporting) (strict : Bool) (v : Value)
    (hv : ∀ decls duplicates, v ≠ .hierarchy decls duplicates) :
    validate { cycleReporting := mode, disabled := [], warningsAsErrors := strict } v = [] ↔
      ∃ entries, v = .map entries ∧ WellDeclared entries := by
  rw [validate_eq_nil_iff_findings rfl, findings]
  cases v with
  | map entries =>
    constructor
    · intro h
      exact ⟨entries, rfl, (Hierarchy.findings_ofEntries_eq_nil_iff rfl).1 h⟩
    · rintro ⟨_, heq, hw⟩
      cases heq
      exact (Hierarchy.findings_ofEntries_eq_nil_iff rfl).2 hw
  | hierarchy decls duplicates => exact absurd rfl (hv decls duplicates)
  | _ => simp [Hierarchy.ofValue?]

/-- Keys of several sorts, references in another case with parameters that no key declares, and a
declaration that is built already. -/
def mixedEntries : List (Value × Value) :=
  [(.str "Item", .map [(.str "fulfills", .list [.str "NONE", .str "12\n[x]", .null])]),
    (.int 12, .decl { fulfills := ["none"] }),
    (.null, .map [(.str "fulfills", .str "Item")]),
    (.str "map", .map [(.str "fulfills", .tuple [.str " iTEM [ key, list[item] ] "])])]

theorem wellDeclared_mixedEntries :
    (∀ decls duplicates, Value.map mixedEntries ≠ .hierarchy decls duplicates) ∧
      validate { cycleReporting := .perMember, disabled := [], warningsAsErrors := true }
        (.map mixedEntries) = [] ∧
      WellDeclared mixedEntries := by
  have hv : ∀ decls duplicates, Value.map mixedEntries ≠ .hierarchy decls duplicates := nofun
  have hnone : validate
      { cycleReporting := .perMember, disabled := [], warningsAsErrors := true }
      (.map mixedEntries) = [] := List.isEmpty_iff.1 (by decide +kernel)
  obtain ⟨_, heq, hw⟩ := (validate_eq_nil_iff_wellDeclared .perMember true _ hv).1 hnone
  cases heq
  exact ⟨hv, hnone, hw⟩

end HierarchyLint
