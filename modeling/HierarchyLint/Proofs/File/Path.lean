import HierarchyLint.File.Tree

/-!
# Normal paths

A path in normal form has no empty components, no single points and no slashes in its components.
Its text is read as the same path again (`Path.IsNormal.ofText_text`). The components that are
dropped lead nowhere from a directory, so a path that leads to something does so in its normal form
as well (`FileTree.find?_text`); the converse fails, since nothing may stand behind the name of a
file.
-/

namespace HierarchyLint

namespace Path

/-- The component leads nowhere. -/
def IsTrivial (component : String) : Prop := component = "" ∨ component = "."

instance (component : String) : Decidable (IsTrivial component) :=
  inferInstanceAs (Decidable (_ ∨ _))

/-- A path as reading a text gives it. -/
structure IsNormal (p : Path) : Prop where
  root : p.root = "" ∨ p.root = "/" ∨ p.root = "//"
  part : ∀ s ∈ p.parts, ¬ IsTrivial s ∧ '/' ∉ s.toList

variable {p : Path} {text : String} {cs part : List Char} {parts : List String}

/-! ## Components -/

theorem slash_not_mem (h : part ∈ cs.splitOn '/') : '/' ∉ part := by
  induction cs generalizing part with
  | nil =>
    obtain rfl := List.mem_singleton.1 h
    exact List.not_mem_nil
  | cons c cs ih =>
    rw [List.splitOn_cons_eq_if_modifyHead] at h
    split at h
    · rcases List.mem_cons.1 h with rfl | h
      · exact List.not_mem_nil
      · exact ih h
    · rename_i hc
      cases hsplit : cs.splitOn '/' with
      | nil =>
        rw [hsplit] at h
        cases h
      | cons first others =>
        rw [hsplit] at h ih
        rcases List.mem_cons.1 h with rfl | h
        · rw [List.mem_cons, not_or]
          exact ⟨fun heq => hc (beq_iff_eq.2 heq.symm), ih (List.mem_cons_self ..)⟩
        · exact ih (List.mem_cons_of_mem _ h)

theorem isNormal_ofText (text : String) : (ofText text).IsNormal where
  root := by
    unfold ofText
    dsimp only
    split
    · exact .inl rfl
    · split
      · exact .inr (.inr rfl)
      · exact .inr (.inl rfl)
  part s hs := by
    obtain ⟨hs, hne⟩ := List.mem_filter.1 hs
    obtain ⟨part, hpart, rfl⟩ := List.mem_map.1 hs
    refine ⟨fun htrivial => ?_, ?_⟩
    · obtain ⟨hempty, hpoint⟩ := of_decide_eq_true hne
      exact htrivial.elim hempty hpoint
    · rw [String.toList_ofList]
      exact slash_not_mem hpart

/-! ## Texts -/

theorem splitOn_slash_cons (cs : List Char) : ('/' :: cs).splitOn '/' = [] :: cs.splitOn '/' := by
  rw [List.splitOn_cons_eq_if_modifyHead]
  rfl

/-- The parts between slashes are the components again, unless there are none. -/
theorem exists_splitOn_intercalate (h : ∀ s ∈ parts, '/' ∉ s.toList) :
    ∃ front : List String, (∀ s ∈ front, IsTrivial s) ∧
      (("/".intercalate parts).toList.splitOn '/').map String.ofList = front ++ parts := by
  by_cases hparts : parts = []
  · subst hparts
    refine ⟨[""], ?_, ?_⟩
    · intro s hs
      exact .inl (List.mem_singleton.1 hs)
    · rw [String.intercalate_nil]
      rfl
  · refine ⟨[], nofun, ?_⟩
    have hslash : ∀ part ∈ parts.map String.toList, '/' ∉ part := by
      intro part hpart
      obtain ⟨s, hs, rfl⟩ := List.mem_map.1 hpart
      exact h s hs
    have hne : parts.map String.toList ≠ [] := mt List.map_eq_nil_iff.1 hparts
    have hsep : "/".toList = ['/'] := rfl
    rw [String.toList_intercalate, hsep, List.splitOn_intercalate '/' hslash hne, List.map_map]
    simp [Function.comp_def]

/-- The text of a path has its parts as components, behind some that lead nowhere. -/
theorem IsNormal.exists_components_text (h : p.IsNormal) :
    ∃ front : List String, (∀ s ∈ front, IsTrivial s) ∧ components p.text = front ++ p.parts := by
  unfold text
  split
  · rename_i hempty
    refine ⟨["."], ?_, ?_⟩
    · intro s hs
      exact .inr (List.mem_singleton.1 hs)
    · rw [hempty.2]
      rfl
  · obtain ⟨front, hfront, hparts⟩ := exists_splitOn_intercalate fun s hs => (h.part s hs).2
    have hcons : ∀ s ∈ "" :: front, IsTrivial s := List.forall_mem_cons.2 ⟨.inl rfl, hfront⟩
    have hone : "/".toList = ['/'] := rfl
    have htwo : "//".toList = ['/', '/'] := rfl
    unfold components
    rcases h.root with hroot | hroot | hroot
    · refine ⟨front, hfront, ?_⟩
      rw [hroot, String.empty_append, hparts]
    · refine ⟨"" :: front, hcons, ?_⟩
      rw [hroot, String.toList_append, hone, List.singleton_append, splitOn_slash_cons,
        List.map_cons, hparts]
      rfl
    · refine ⟨"" :: "" :: front, List.forall_mem_cons.2 ⟨.inl rfl, hcons⟩, ?_⟩
      rw [hroot, String.toList_append, htwo, List.cons_append, List.singleton_append,
        splitOn_slash_cons, splitOn_slash_cons, List.map_cons, List.map_cons, hparts]
      rfl

/-- Texts between slashes begin with the first of them. -/
theorem exists_intercalate_cons (s : String) (parts : List String) :
    ∃ more, "/".intercalate (s :: parts) = s ++ more := by
  cases parts with
  | nil => exact ⟨"", by rw [String.intercalate_singleton, String.append_empty]⟩
  | cons s' parts => exact ⟨_, by rw [String.intercalate_cons_cons, String.append_assoc]⟩

/-- The parts of a path between slashes do not begin with one. -/
theorem IsNormal.takeWhile_intercalate (h : p.IsNormal) :
    ("/".intercalate p.parts).toList.takeWhile (· == '/') = [] := by
  cases hparts : p.parts with
  | nil =>
    rw [String.intercalate_nil]
    rfl
  | cons s parts =>
    obtain ⟨htrivial, hslash⟩ := h.part s (hparts ▸ List.mem_cons_self ..)
    obtain ⟨more, hmore⟩ := exists_intercalate_cons s parts
    cases hs : s.toList with
    | nil => exact absurd (.inl (String.toList_eq_nil_iff.1 hs)) htrivial
    | cons c cs =>
      rw [hs, List.mem_cons, not_or] at hslash
      rw [hmore, String.toList_append, hs, List.cons_append, List.takeWhile_cons_of_neg]
      exact fun hc => hslash.1 (beq_iff_eq.1 hc).symm

theorem IsNormal.root_ofText_text (h : p.IsNormal) : (ofText p.text).root = p.root := by
  have hone : "/".toList = ['/'] := rfl
  have htwo : "//".toList = ['/', '/'] := rfl
  unfold ofText text
  dsimp only
  split
  · rename_i hempty
    rw [hempty.1]
    rfl
  · rcases h.root with hroot | hroot | hroot
    · rw [hroot, String.empty_append, h.takeWhile_intercalate]
      rfl
    · rw [hroot, String.toList_append, hone, List.singleton_append,
        List.takeWhile_cons_of_pos (by rfl), h.takeWhile_intercalate]
      rfl
    · rw [hroot, String.toList_append, htwo, List.cons_append, List.singleton_append,
        List.takeWhile_cons_of_pos (by rfl), List.takeWhile_cons_of_pos (by rfl),
        h.takeWhile_intercalate]
      rfl

theorem IsNormal.ofText_text (h : p.IsNormal) : ofText p.text = p := by
  obtain ⟨front, hfront, hcomponents⟩ := h.exists_components_text
  have hparts : (ofText p.text).parts = p.parts := by
    have hnone : front.filter (fun s => s ≠ "" ∧ s ≠ ".") = [] := by
      refine List.filter_eq_nil_iff.2 fun s hs hne => ?_
      obtain ⟨hempty, hpoint⟩ := of_decide_eq_true hne
      exact (hfront s hs).elim hempty hpoint
    have hall : p.parts.filter (fun s => s ≠ "" ∧ s ≠ ".") = p.parts :=
      List.filter_eq_self.2 fun s hs => decide_eq_true (not_or.1 (h.part s hs).1)
    rw [ofText, hcomponents, List.filter_append, hnone, hall, List.nil_append]
  calc ofText p.text = ⟨(ofText p.text).root, (ofText p.text).parts⟩ := rfl
    _ = p := by rw [h.root_ofText_text, hparts]

theorem IsNormal.text_ne_empty (h : p.IsNormal) : p.text ≠ "" := by
  intro hempty
  have hp := h.ofText_text
  rw [hempty] at hp
  rw [← hp] at hempty
  exact absurd hempty (by decide)

end Path

/-! ## Looking up -/

namespace FileTree

variable {t : FileTree} {place e : Entry} {components front : List String} {text : String}

theorem step?_trivial {d : Path} {s : String} (h : Path.IsTrivial s) :
    t.step? (.directory d) s = some (.directory d) := by
  rw [step?]
  exact if_pos h

/-- Components that lead nowhere are stood over in a directory. -/
theorem foldlM_trivial (h : ∀ s ∈ front, Path.IsTrivial s) (d : Path) (components : List String) :
    (front ++ components).foldlM t.step? (.directory d)
      = components.foldlM t.step? (.directory d) := by
  induction front with
  | nil => rfl
  | cons s front ih =>
    obtain ⟨hs, hfront⟩ := List.forall_mem_cons.1 h
    rw [List.cons_append, List.foldlM_cons, step?_trivial hs]
    exact ih hfront

theorem foldlM_filter (h : components.foldlM t.step? place = some e) :
    (components.filter fun s => s ≠ "" ∧ s ≠ ".").foldlM t.step? place = some e := by
  induction components generalizing place with
  | nil => exact h
  | cons s components ih =>
    rw [List.foldlM_cons] at h
    obtain ⟨next, hstep, h⟩ := Option.bind_eq_some_iff.1 h
    by_cases hs : Path.IsTrivial s
    · cases place with
      | file bytes => cases hstep
      | directory d =>
        rw [step?_trivial hs] at hstep
        cases hstep
        rw [List.filter_cons, if_neg fun hne => not_or.2 (of_decide_eq_true hne) hs]
        exact ih h
    · rw [List.filter_cons, if_pos (decide_eq_true (not_or.1 hs)), List.foldlM_cons, hstep]
      exact ih h

theorem find?_text (h : t.find? text = some e) : t.find? (Path.ofText text).text = some e := by
  have hnormal := Path.isNormal_ofText text
  obtain ⟨front, hfront, hcomponents⟩ := hnormal.exists_components_text
  unfold find? at h ⊢
  split at h
  · cases h
  · rw [if_neg (mt String.isEmpty_iff.1 hnormal.text_ne_empty), hnormal.ofText_text, hcomponents,
      foldlM_trivial hfront]
    exact foldlM_filter h

end FileTree

end HierarchyLint
