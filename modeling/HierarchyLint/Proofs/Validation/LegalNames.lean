import HierarchyLint.Proofs.Answer
import HierarchyLint.Proofs.Expr.RoundTrip
import HierarchyLint.Proofs.Validation.Checks
import HierarchyLint.Proofs.Validation.Kinds

/-!
# Legal names and names of the grammar

Two rules say what a name may be. Validation forbids the comma, the space and the brackets; the
grammar ends a name there and at every other blank as well, and needs at least one character. So of
the names that validation lets pass, a reference can spell those that are not empty and hold no
blank, and no others.
-/

namespace HierarchyLint

variable {c : Char} {n : String}

/-- A character of no name is a forbidden one, or a blank other than the space. -/
theorem not_isName_singleton_iff :
    ¬ IsName [c] ↔ illegalSort? c ≠ none ∨ Text.isBlank c = true ∧ c ≠ ' ' := by
  have hsort : illegalSort? c ≠ none ↔ ¬ (c ≠ ',' ∧ c ≠ ' ' ∧ c ≠ '[' ∧ c ≠ ']') :=
    illegalSort?_eq_none_iff.not
  rw [Token.isName_singleton_iff, Token.isNameChar_iff, hsort, ← Bool.not_eq_true]
  by_cases hspace : c = ' '
  · simp [hspace, Text.isBlank_space]
  · tauto

/-- A name of the grammar is one in which every character is. -/
theorem isName_toList_iff :
    IsName n.toList ↔ n ≠ "" ∧ ∀ c ∈ n.toList, illegalSort? c = none ∧ Text.isBlank c = false := by
  have hchar : ∀ c, illegalSort? c = none ∧ Text.isBlank c = false ↔
      c ≠ '[' ∧ c ≠ ']' ∧ c ≠ ',' ∧ Text.isBlank c = false := by
    intro c
    rw [illegalSort?_eq_none_iff]
    constructor
    · rintro ⟨⟨hcomma, -, hl, hr⟩, hblank⟩
      exact ⟨hl, hr, hcomma, hblank⟩
    · rintro ⟨hl, hr, hcomma, hblank⟩
      refine ⟨⟨hcomma, ?_, hl, hr⟩, hblank⟩
      rintro rfl
      cases hblank
  simp only [hchar]
  constructor
  · rintro ⟨hne, hchars⟩
    exact ⟨fun h => hne (h ▸ rfl), hchars⟩
  · rintro ⟨hne, hchars⟩
    exact ⟨fun h => hne (String.toList_inj.1 h), hchars⟩

theorem parse_eq_leaf_iff : TypeExpr.parse n = .ok (.leaf n) ↔ IsName n.toList := by
  constructor
  · intro h
    exact (parse_eq_ok_iff_spells.1 h).isName .front
  · intro h
    have hwell : (TypeExpr.leaf n).WellNamed :=
      TypeExpr.wellNamed_node_iff.2 ⟨h, fun p hp => absurd hp List.not_mem_nil⟩
    have hrender : (TypeExpr.leaf n).render = n := TypeExpr.render_node n []
    have hparse := TypeExpr.parse_render hwell
    rwa [hrender] at hparse

theorem exists_illegalCharacter_diagnostic {v : Value} {h : Hierarchy}
    (hv : Hierarchy.ofValue? v = some h) (hn : n ∈ h.names) (hc : c ∈ n.toList)
    (hsort : illegalSort? c ≠ none) :
    ∃ d ∈ diagnosticsOf {} .illegalCharacter v, d.args.head? = some (.str n) := by
  obtain ⟨sort, e, hf⟩ := Hierarchy.exists_mem_illegalCharacters hn hc hsort
  rw [diagnosticsOf_illegalCharacter rfl hv]
  exact ⟨_, List.mem_map_of_mem hf, rfl⟩

/-- A declared name about which no illegal character is reported spells itself exactly if it is not
empty and holds no blank. The characters of no name are those that validation forbids and the blanks
other than the space, on which alone the two rules differ. -/
theorem unreported_name_spells_itself_iff {v : Value} {h : Hierarchy}
    (hv : Hierarchy.ofValue? v = some h) (hn : n ∈ h.names)
    (hd : ∀ d ∈ diagnosticsOf {} .illegalCharacter v, d.args.head? ≠ some (.str n)) :
    (TypeExpr.parse n = .ok (.leaf n) ↔ n ≠ "" ∧ ∀ c ∈ n.toList, Text.isBlank c = false) ∧
    ∀ c, ¬ IsName [c] ↔ illegalSort? c ≠ none ∨ Text.isBlank c = true ∧ c ≠ ' ' := by
  have hlegal : ∀ c ∈ n.toList, illegalSort? c = none := by
    intro c hc
    by_contra hsort
    obtain ⟨d, hmem, hargs⟩ := exists_illegalCharacter_diagnostic hv hn hc hsort
    exact hd d hmem hargs
  refine ⟨?_, fun c => not_isName_singleton_iff⟩
  rw [parse_eq_leaf_iff, isName_toList_iff]
  constructor
  · rintro ⟨hne, hchars⟩
    exact ⟨hne, fun c hc => (hchars c hc).2⟩
  · rintro ⟨hne, hblank⟩
    exact ⟨hne, fun c hc => ⟨hlegal c hc, hblank c hc⟩⟩

/-- A name with a tab, the empty name, a name with a space and one with none of these. -/
def blankEntries : List (Value × Value) :=
  [(.str "a\tb", .null), (.str "", .null), (.str "a b", .null), (.str "größe*", .null)]

theorem unreported_names_of_blankEntries :
    Hierarchy.ofValue? (.map blankEntries) = some (.ofEntries blankEntries) ∧
    "größe*" ∈ (Hierarchy.ofEntries blankEntries).names ∧
    (diagnosticsOf {} .illegalCharacter (.map blankEntries)).map
      (fun d => d.args.map Value.text) = [["a b", "space", " "]] ∧
    TypeExpr.parse "größe*" = .ok (.leaf "größe*") := by
  have hv : Hierarchy.ofValue? (.map blankEntries) = some (.ofEntries blankEntries) := rfl
  have hn : "größe*" ∈ (Hierarchy.ofEntries blankEntries).names := by decide +kernel
  have hargs : (diagnosticsOf {} .illegalCharacter (.map blankEntries)).map
      (fun d => d.args.map Value.text) = [["a b", "space", " "]] := by decide +kernel
  have hd : ∀ d ∈ diagnosticsOf {} .illegalCharacter (.map blankEntries),
      d.args.head? ≠ some (.str "größe*") := by
    intro d hmem hhead
    have htext : d.args.map Value.text = ["a b", "space", " "] :=
      List.mem_singleton.1 (hargs ▸ List.mem_map_of_mem hmem)
    have hfirst := congrArg List.head? htext
    rw [List.head?_map, hhead] at hfirst
    revert hfirst
    decide
  have hblank : ("größe*".toList.all fun c => !Text.isBlank c) = true := by decide +kernel
  exact ⟨hv, hn, hargs, (unreported_name_spells_itself_iff hv hn hd).1.2
    ⟨by decide, by simpa using List.all_eq_true.1 hblank⟩⟩

/-- A name with a tab, and the empty name. -/
def tabEntries : List (Value × Value) := [(.str "a\tb", .null), (.str "", .null)]

/-- Validation lets names pass that no reference can spell. -/
theorem unreported_names_of_tabEntries :
    Hierarchy.ofValue? (.map tabEntries) = some (.ofEntries tabEntries) ∧
    (Hierarchy.ofEntries tabEntries).names = ["a\tb", ""] ∧
    diagnosticsOf {} .illegalCharacter (.map tabEntries) = [] ∧
    TypeExpr.parse "a\tb" = .error ⟨.extraCharacters, "a\tb", 2⟩ ∧
    TypeExpr.parse "" = .error ⟨.missingName, "", 0⟩ := by
  have hnames : (Hierarchy.ofEntries tabEntries).names = ["a\tb", ""] := by decide +kernel
  have hnone : diagnosticsOf {} .illegalCharacter (.map tabEntries) = [] :=
    List.isEmpty_iff.1 (by decide +kernel)
  exact ⟨rfl, hnames, hnone, eq_error_of_error? (by decide +kernel),
    eq_error_of_error? (by decide +kernel)⟩

end HierarchyLint
