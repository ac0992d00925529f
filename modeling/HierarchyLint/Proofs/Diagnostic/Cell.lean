import HierarchyLint.Diagnostic.Basic
import HierarchyLint.Proofs.Answer
import HierarchyLint.Proofs.Text.Markup

/-!
# The live tags of a diagnostic

The cell of a diagnostic is put together from two texts that are escaped on their own, the message
and the pointer of the parse error, with tags of the cell's own around the pointer. No live tag
begins in either text, whatever stands in it, and none reaches over a seam: a line feed stands
between the message and the first tag, and the pointer ends with its caret. So the live tags are
the cell's own.
-/

namespace HierarchyLint.Diagnostic

open Text.Markup

/-- The tags that the cell of a diagnostic writes by itself, each with the text in front of it. The
last one ends the cell. -/
def ownTags (message : String) : Option ParseError → List (List Char × List Char)
  | none => []
  | some e =>
    [((escape message ++ "\n").toList, "[dim]".toList),
      ((escape message ++ "\n[dim]" ++ escape e.pointer).toList, "[/]".toList)]

variable {d : Diagnostic} {m : String} {e : ParseError} {front tag : List Char}

theorem cell_of_message (h : d.message = .ok m) :
    d.cell = .ok (escape m ++ (match d.error? with
      | some e => pointerMarkup e
      | none => "")) := by
  rw [cell, h]
  rfl

theorem isTag_dim : IsTag ['[', 'd', 'i', 'm', ']'] :=
  isTag_iff.2 ⟨'d', ['i', 'm'], rfl, by decide, by decide, by decide⟩

theorem isTag_close : IsTag ['[', '/', ']'] :=
  isTag_iff.2 ⟨'/', [], rfl, by decide, by decide, by decide⟩

theorem not_liveTag_behind {cs : List Char} (h : cs <+: front) : ¬ LiveTag cs front tag := by
  intro hlive
  obtain ⟨u, rfl, -⟩ := hlive.isTag.exists_cons
  have hshort := hlive.occurs.length_le
  have hlong := h.length_le
  simp only [List.length_append, List.length_cons] at hshort
  omega

/-- If no live tag begins in the texts in front of two tags, these two are the live tags. -/
theorem liveTag_between_iff {x y t u : List Char} (ht : IsTag t) (hu : IsTag u)
    (hx : Passes [] x (t ++ (y ++ (u ++ [])))) (hy : Passes (x ++ t) y (u ++ []))
    (hxslashes : slashesAtEnd x % 2 = 0) (hyslashes : slashesAtEnd (x ++ t ++ y) % 2 = 0) :
    LiveTag (x ++ (t ++ (y ++ (u ++ [])))) front tag ↔
      (front = x ∧ tag = t) ∨ (front = x ++ t ++ y ∧ tag = u) := by
  constructor
  · intro hlive
    have hfront := hx front tag hlive List.nil_prefix
    rcases ht.eq_or_passes hlive hfront with h | hfront
    · exact .inl h
    rw [← List.append_assoc] at hlive
    have hfront := hy front tag hlive hfront
    rw [← List.append_assoc] at hlive
    rcases hu.eq_or_passes hlive hfront with h | hfront
    · exact .inr h
    · rw [List.append_nil] at hlive
      exact absurd hlive (not_liveTag_behind hfront)
  · rintro (⟨rfl, rfl⟩ | ⟨rfl, rfl⟩)
    · exact ⟨⟨y ++ (u ++ []), by simp⟩, ht, hxslashes⟩
    · exact ⟨⟨[], by simp⟩, hu, hyslashes⟩

/-! ## Cells -/

theorem not_liveTag_escape (m : String) : ¬ LiveTag (escape m).toList front tag := by
  intro hlive
  have hpass : Passes [] (escape m).toList [] := passes_escape m rfl rfl
  have hfront := hpass front tag (by simpa using hlive) List.nil_prefix
  rw [List.nil_append] at hfront
  exact not_liveTag_behind hfront hlive

/-- The live tags of a cell with a pointer are its own. -/
theorem liveTag_pointer_iff (m : String) (e : ParseError) :
    LiveTag (escape m ++ pointerMarkup e).toList front tag ↔
      (front, tag) ∈ ownTags m (some e) := by
  obtain ⟨ds, hds⟩ : ∃ ds, (escape e.pointer).toList = ds ++ ['^'] :=
    exists_escape_concat (String.toList_append ..) (by decide)
  have hcell : (escape m ++ pointerMarkup e).toList = ((escape m).toList ++ ['\n']) ++
      (['[', 'd', 'i', 'm', ']'] ++ ((escape e.pointer).toList ++ (['[', '/', ']'] ++ []))) := by
    simp [pointerMarkup]
  have hown : (front, tag) ∈ ownTags m (some e) ↔
      (front = (escape m).toList ++ ['\n'] ∧ tag = ['[', 'd', 'i', 'm', ']']) ∨
      (front = (escape m).toList ++ ['\n'] ++ ['[', 'd', 'i', 'm', ']']
        ++ (escape e.pointer).toList ∧ tag = ['[', '/', ']']) := by
    simp [ownTags]
  rw [hcell, hown]
  -- the line feed keeps the message from the first tag, the caret the pointer from the last one
  have hmessage : Passes [] (escape m).toList (['\n'] ++ (['[', 'd', 'i', 'm', ']']
      ++ ((escape e.pointer).toList ++ (['[', '/', ']'] ++ [])))) := passes_escape m rfl rfl
  refine liveTag_between_iff isTag_dim isTag_close (hmessage.append (passes_plain (by decide)))
    (passes_escape _ rfl ?_) ?_ ?_
  · have hends : slashesAtEnd (((escape m).toList ++ ['\n', '[', 'd', 'i', 'm']) ++ [']']) = 0 :=
      slashesAtEnd_concat_ne _ (by decide)
    simpa using hends
  · rw [slashesAtEnd_concat_ne _ (by decide)]
  · rw [hds, ← List.append_assoc, slashesAtEnd_concat_ne _ (by decide)]

/-- If the message of a diagnostic can be written, so can its cell, and the live tags of the cell
are its own: none without a parse error, and with one the tags around its pointer. A match that
reaches over further closing brackets begins with one of them, too. -/
theorem cell_liveTag_iff (h : d.message = .ok m) :
    ∃ cell, d.cell = .ok cell ∧
      (∀ front tag, LiveTag cell.toList front tag ↔ (front, tag) ∈ ownTags m d.error?) ∧
      (∀ front t, Matches t → front ++ t <+: cell.toList → slashesAtEnd front % 2 = 0 →
        ∃ tag, (front, tag) ∈ ownTags m d.error?) := by
  refine ⟨_, cell_of_message h, ?_⟩
  have hlive : ∀ front tag, LiveTag (escape m ++ (match d.error? with
      | some e => pointerMarkup e
      | none => "")).toList front tag ↔ (front, tag) ∈ ownTags m d.error? := by
    intro front tag
    cases d.error? with
    | none =>
      rw [String.append_empty]
      simp [ownTags, not_liveTag_escape]
    | some e => exact liveTag_pointer_iff m e
  refine ⟨hlive, fun front t ht hoccurs heven => ?_⟩
  obtain ⟨u, hu, htag⟩ := ht.exists_isTag
  have hwhole := ((List.prefix_append_right_inj front).2 hu).trans hoccurs
  exact ⟨u, (hlive front u).1 ⟨hwhole, htag, heven⟩⟩

/-- The entry has brackets, one of them behind a backslash, and it ends with a backslash, and so does
the message. -/
def slashedEntry : Diagnostic where
  kind := .unparseableSupertype
  severity := .error
  template := "%s It was %s"
  args := [.error ⟨.extraCharacters, "m[k]\\[v]\\", 4⟩, .str "m[k]\\[v]\\"]

theorem cell_liveTag_slashedEntry :
    slashedEntry.message = .ok
      "Unexpected extra characters at index 4 of 'm[k]\\[v]\\'. It was m[k]\\[v]\\" ∧
    ∃ cell, slashedEntry.cell = .ok cell ∧
      (∀ front tag, LiveTag cell.toList front tag →
        tag = ['[', 'd', 'i', 'm', ']'] ∨ tag = ['[', '/', ']']) ∧
      LiveTag cell.toList (("Unexpected extra characters at index 4 of 'm\\[k]\\\\\\[v]\\'. " ++
        "It was m\\[k]\\\\\\[v]\\\\\n").toList) ['[', 'd', 'i', 'm', ']'] := by
  have hmessage : slashedEntry.message = .ok
      "Unexpected extra characters at index 4 of 'm[k]\\[v]\\'. It was m[k]\\[v]\\" :=
    eq_ok_of_toOption (by decide +kernel)
  obtain ⟨cell, hcell, hlive, -⟩ := cell_liveTag_iff hmessage
  refine ⟨hmessage, cell, hcell, fun front tag h => ?_, (hlive _ _).2 ?_⟩
  · have hown := (hlive front tag).1 h
    have hdim : "[dim]".toList = ['[', 'd', 'i', 'm', ']'] := by decide
    have hclose : "[/]".toList = ['[', '/', ']'] := by decide
    simp only [Diagnostic.error?, slashedEntry, List.findSome?_cons, ownTags, List.mem_cons,
      List.not_mem_nil, or_false, Prod.mk.injEq, hdim, hclose] at hown
    exact hown.imp And.right And.right
  · decide +kernel

end HierarchyLint.Diagnostic
