import HierarchyLint.Proofs.Text.CaseTable
import HierarchyLint.Proofs.Text.Lower
import Mathlib.Data.List.Forall2

/-!
# Texts that differ by case

Two texts are alike if their characters, one by one, have the same lower-case forms. A character in
a text has the form that it has alone, unless it is a capital sigma that ends a word. So alike texts
have one lower-case form exactly if the capital sigmas that end words stand at the same places in
both (`lower_eq_iff_finalSigma`). A small sigma stays as it is at the end of a word, so it does not
count as a capital one there.
-/

namespace HierarchyLint.Text

variable {c d : Char} {before before' cs ds : List Char} {s t : String}

/-- The texts are equally long, and at each place stand characters that have one lower-case form if
each of them is taken alone. -/
def Alike (s t : String) : Prop :=
  List.Forall₂ (fun c d => lower (String.singleton c) = lower (String.singleton d))
    s.toList t.toList

instance : Decidable (Alike s t) :=
  inferInstanceAs (Decidable (List.Forall₂ _ _ _))

/-- At the place stands a capital sigma that ends a word: a character with case comes before it and
none behind it. -/
def FinalSigma (s : String) (i : Nat) : Prop :=
  s.toList[i]? = some 'Σ' ∧ startsCased (s.toList.take i).reverse = true ∧
    startsCased (s.toList.drop (i + 1)) = false

/-! ## One character -/

theorem lowerChar_sigma : lowerChar 'Σ' = ['σ'] := by decide +kernel

/-- The character is a capital sigma that ends a word, between the text in front of it, nearest
first, and the text behind. -/
def EndsWord (before : List Char) (c : Char) (cs : List Char) : Prop :=
  c = 'Σ' ∧ startsCased before = true ∧ startsCased cs = false

instance : Decidable (EndsWord before c cs) :=
  inferInstanceAs (Decidable (_ ∧ _ ∧ _))

theorem form_eq : form before c cs = if EndsWord before c cs then ['ς'] else lowerChar c := by
  unfold form EndsWord
  by_cases hc : c = 'Σ'
  · by_cases hb : startsCased before = true
    · by_cases hcs : startsCased cs = true <;> simp [hc, hb, hcs, lowerChar_sigma]
    · simp [hc, hb, lowerChar_sigma]
  · simp [hc]

theorem lower_singleton (c : Char) : lower (String.singleton c) = String.ofList (lowerChar c) := by
  have hnot : ¬ EndsWord [] c [] := fun h => nomatch h.2.1
  rw [lower, String.toList_singleton, lowerFrom_cons, form_eq, if_neg hnot, lowerFrom,
    List.append_nil]

theorem lowerChar_eq_of_lower_singleton
    (h : lower (String.singleton c) = lower (String.singleton d)) : lowerChar c = lowerChar d := by
  rw [lower_singleton, lower_singleton] at h
  exact String.ofList_injective h

/-- Characters with one lower-case form keep it in texts, unless one of them alone ends a word. -/
theorem form_eq_iff (h : lowerChar c = lowerChar d) :
    form before c cs = form before' d ds ↔ (EndsWord before c cs ↔ EndsWord before' d ds) := by
  rw [form_eq, form_eq]
  by_cases hc : EndsWord before c cs
  · by_cases hd : EndsWord before' d ds
    · simp [hc, hd]
    · rw [hc.1, lowerChar_sigma] at h
      simp [hc, hd, ← h]
  · by_cases hd : EndsWord before' d ds
    · rw [hd.1, lowerChar_sigma] at h
      simp [hc, hd, h]
    · simp [hc, hd, h]

theorem length_form (before : List Char) (c : Char) (cs : List Char) :
    (form before c cs).length = (lowerChar c).length := by
  rw [form_eq]
  split
  · rename_i hc
    rw [hc.1, lowerChar_sigma]
    rfl
  · rfl

/-! ## Whole texts -/

/-- The characters behind the text in front agree place by place on the capital sigmas that end
words. -/
theorem lowerFrom_eq_iff (h : List.Forall₂ (fun c d => lowerChar c = lowerChar d) cs ds) :
    lowerFrom before cs = lowerFrom before' ds ↔
      ∀ i, (∃ c, cs[i]? = some c ∧ EndsWord ((cs.take i).reverse ++ before) c (cs.drop (i + 1))) ↔
        ∃ d, ds[i]? = some d ∧ EndsWord ((ds.take i).reverse ++ before') d (ds.drop (i + 1)) := by
  induction h generalizing before before' with
  | nil => simp [lowerFrom]
  | @cons c d cs ds hcd _ ih =>
    have hlen : (form before c cs).length = (form before' d ds).length := by
      rw [length_form, length_form, hcd]
    have hsplit : lowerFrom before (c :: cs) = lowerFrom before' (d :: ds) ↔
        form before c cs = form before' d ds ∧
          lowerFrom (c :: before) cs = lowerFrom (d :: before') ds :=
      ⟨fun heq => List.append_inj heq hlen, fun ⟨hform, hrest⟩ => by
        rw [lowerFrom_cons, lowerFrom_cons, hform, hrest]⟩
    rw [hsplit, form_eq_iff hcd, ih]
    refine Iff.trans ?_ Nat.and_forall_add_one
    simp

/-- Alike texts have one lower-case form exactly if the same of their places hold capital sigmas
that end words. -/
theorem lower_eq_iff_finalSigma (h : Alike s t) :
    lower s = lower t ↔ ∀ i, FinalSigma s i ↔ FinalSigma t i := by
  have hforms : List.Forall₂ (fun c d => lowerChar c = lowerChar d) s.toList t.toList :=
    h.imp fun _ _ => lowerChar_eq_of_lower_singleton
  rw [← String.toList_inj, toList_lower, toList_lower, lowerFrom_eq_iff hforms]
  simp [FinalSigma, EndsWord]

end HierarchyLint.Text
