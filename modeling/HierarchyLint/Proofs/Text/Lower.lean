import HierarchyLint.Proofs.Text.CaseTable

/-!
# Lower case twice and in parts

A text in lower case holds no character that lower case would change, so lower case twice is lower
case once (`lower_lower`). A character between names ends the search for a neighbour with case, so
what stands in front of it and what stands behind it have their own lower-case forms
(`lowerFrom_append`, `lowerFrom_before`).
-/

namespace HierarchyLint.Text

variable {c d : Char} {before cs ds : List Char}

/-- The form of a character between the text in front of it, nearest first, and the text behind. -/
def form (before : List Char) (c : Char) (cs : List Char) : List Char :=
  if c = 'Σ' then [if startsCased before && !startsCased cs then 'ς' else 'σ'] else lowerChar c

theorem lowerFrom_cons (before : List Char) (c : Char) (cs : List Char) :
    lowerFrom before (c :: cs) = form before c cs ++ lowerFrom (c :: before) cs := rfl

theorem toList_lower (s : String) : (lower s).toList = lowerFrom [] s.toList :=
  String.toList_ofList

/-! ## Lower case twice -/

theorem lowerChar_of_mem_form (h : d ∈ form before c cs) : lowerChar d = [d] := by
  unfold form at h
  split at h
  · obtain rfl := List.mem_singleton.1 h
    split <;> decide +kernel
  · exact lowerChar_of_mem h

theorem lowerChar_of_mem_lowerFrom (h : d ∈ lowerFrom before cs) : lowerChar d = [d] := by
  induction cs generalizing before with
  | nil => cases h
  | cons c cs ih =>
    rw [lowerFrom_cons] at h
    rcases List.mem_append.1 h with h | h
    · exact lowerChar_of_mem_form h
    · exact ih h

theorem lowerFrom_eq_self (h : ∀ c ∈ cs, lowerChar c = [c]) (before : List Char) :
    lowerFrom before cs = cs := by
  induction cs generalizing before with
  | nil => rfl
  | cons c cs ih =>
    obtain ⟨hc, hcs⟩ := List.forall_mem_cons.1 h
    have hne : c ≠ 'Σ' := by
      rintro rfl
      revert hc
      decide +kernel
    rw [lowerFrom_cons, ih hcs, form, if_neg hne, hc]
    rfl

theorem lower_lower (s : String) : lower (lower s) = lower s := by
  have hself : lowerFrom [] (lower s).toList = (lower s).toList := by
    refine lowerFrom_eq_self (fun c hc => ?_) []
    rw [toList_lower] at hc
    exact lowerChar_of_mem_lowerFrom hc
  rw [lower, hself, String.ofList_toList]

/-! ## Parts of a text -/

theorem startsCased_append (h : ∀ d ∈ ds.head?, isApart d = true) :
    startsCased (cs ++ ds) = startsCased cs := by
  unfold startsCased
  rw [List.dropWhile_append]
  split
  · rename_i hcs
    rw [List.isEmpty_iff.1 hcs]
    cases ds with
    | nil => rfl
    | cons d ds =>
      have hd := h d rfl
      have hstop : ¬ isCaseIgnorable d = true := by simp [isCaseIgnorable_of_isApart hd]
      rw [List.dropWhile_cons_of_neg hstop]
      exact isCased_of_isApart hd
  · rename_i hcs
    cases hdrop : cs.dropWhile isCaseIgnorable with
    | nil => simp [hdrop] at hcs
    | cons c rest => rfl

/-- The neighbours behind a character between names do not matter in front of it. -/
theorem lowerFrom_append (h : ∀ d ∈ ds.head?, isApart d = true) (before : List Char) :
    lowerFrom before (cs ++ ds)
      = lowerFrom before cs ++ lowerFrom (cs.reverse ++ before) ds := by
  induction cs generalizing before with
  | nil => rfl
  | cons c cs ih =>
    have hform : form before c (cs ++ ds) = form before c cs := by
      rw [form, form, startsCased_append h]
    rw [List.cons_append, lowerFrom_cons, lowerFrom_cons, ih, hform, List.append_assoc,
      List.reverse_cons, List.append_assoc, List.singleton_append]

/-- The neighbours in front of a character between names do not matter behind it. -/
theorem lowerFrom_before (h : ∀ d ∈ before.head?, isApart d = true) (near : List Char) :
    lowerFrom (near ++ before) cs = lowerFrom near cs := by
  induction cs generalizing near with
  | nil => rfl
  | cons c cs ih =>
    have hform : form (near ++ before) c cs = form near c cs := by
      rw [form, form, startsCased_append h]
    rw [lowerFrom_cons, lowerFrom_cons, hform, ← List.cons_append, ih]

theorem form_of_isApart (h : isApart c = true) : form before c cs = [c] := by
  have hne : c ≠ 'Σ' := by
    rintro rfl
    revert h
    decide
  rw [form, if_neg hne, lowerChar_of_isApart h]

theorem lowerFrom_of_isApart (h : isApart c = true) :
    lowerFrom before (c :: cs) = c :: lowerFrom (c :: before) cs := by
  rw [lowerFrom_cons, form_of_isApart h]
  rfl

theorem isApart_of_mem_lowerFrom (hcs : ∀ c ∈ cs, isApart c = false) (before : List Char) :
    ∀ d ∈ lowerFrom before cs, isApart d = false := by
  induction cs generalizing before with
  | nil => intro d hd; cases hd
  | cons c cs ih =>
    obtain ⟨hc, hcs⟩ := List.forall_mem_cons.1 hcs
    intro d hd
    rw [lowerFrom_cons] at hd
    rcases List.mem_append.1 hd with hd | hd
    · unfold form at hd
      split at hd
      · obtain rfl := List.mem_singleton.1 hd
        split <;> decide
      · rw [← Bool.not_eq_true] at hc ⊢
        exact fun hapart => hc (isApart_of_mem_lowerChar hd hapart)
    · exact ih hcs _ d hd

theorem mem_lowerFrom_of_isApart (h : isApart c = true) (hc : c ∈ cs) (before : List Char) :
    c ∈ lowerFrom before cs := by
  induction cs generalizing before with
  | nil => cases hc
  | cons d cs ih =>
    rw [lowerFrom_cons]
    rcases List.mem_cons.1 hc with rfl | hc
    · rw [form_of_isApart h]
      exact List.mem_cons_self ..
    · exact List.mem_append_right _ (ih hc _)

theorem lowerFrom_ne_nil (h : cs ≠ []) (before : List Char) : lowerFrom before cs ≠ [] := by
  cases cs with
  | nil => exact absurd rfl h
  | cons c cs =>
    rw [lowerFrom_cons]
    intro hnil
    have hform := (List.append_eq_nil_iff.1 hnil).1
    unfold form at hform
    split at hform
    · cases hform
    · exact lowerChar_ne_nil c hform

end HierarchyLint.Text
