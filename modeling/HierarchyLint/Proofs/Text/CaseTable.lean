import HierarchyLint.Text.Case

/-!
# What the tables of letter case say

Two facts are read off the blocks of the tables. A lower-case form is its own lower-case form
(`lowerChar_of_mem`), because no block covers what another one leads to. And the characters that
stand between names (blanks, brackets and the comma) take no part in lower case at all: they have
no case, they do not stand aside, and they are the lower-case form of themselves alone.
-/

namespace HierarchyLint.Text

variable {b c : CaseBlock} {n : Nat}

/-! ## Blocks -/

theorem inBlocks_iff {blocks : List (Nat × Nat)} :
    inBlocks blocks n = true ↔ ∃ s ∈ blocks, s.1 ≤ n ∧ n ≤ s.2 := by
  simp [inBlocks]

/-- Blocks without a common code point. -/
def disjointBlocks (ss ts : List (Nat × Nat)) : Bool :=
  ss.all fun s => ts.all fun t => s.2.blt t.1 || t.2.blt s.1

theorem inBlocks_of_disjoint {ss ts : List (Nat × Nat)} (h : disjointBlocks ss ts = true)
    (hn : inBlocks ss n = true) : inBlocks ts n = false := by
  rw [← Bool.not_eq_true, inBlocks_iff]
  rintro ⟨t, ht, hlo, hhi⟩
  obtain ⟨s, hs, hslo, hshi⟩ := inBlocks_iff.1 hn
  have hst := List.all_eq_true.1 (List.all_eq_true.1 h s hs) t ht
  simp only [Bool.or_eq_true, Nat.blt_eq] at hst
  omega

namespace CaseBlock

def low (b : CaseBlock) : Nat := (b.first + b.shift).toNat

def high (b : CaseBlock) : Nat := (b.last + b.shift).toNat

/-- No lower-case form of the first block is covered by the second one: it lies in front of it or
behind it, or else on the code points between those that the second block covers. -/
def clears (b c : CaseBlock) : Bool :=
  b.high.blt c.first || c.last.blt b.low ||
    ((b.step.beq 2 || b.low.beq b.high) && c.step.beq 2 && ((b.low - c.first) % 2).beq 1)

theorem covers_iff :
    b.covers n = true ↔ b.first ≤ n ∧ n ≤ b.last ∧ (n - b.first) % b.step = 0 := by
  simp [covers, and_assoc]

theorem clears_iff : b.clears c = true ↔ b.high < c.first ∨ c.last < b.low ∨
    (b.step = 2 ∨ b.low = b.high) ∧ c.step = 2 ∧ (b.low - c.first) % 2 = 1 := by
  simp [clears, or_assoc, and_assoc]

end CaseBlock

/-! ## What is checked block by block -/

/-- The characters that stand between names: blanks, the comma and the brackets. -/
def apartBlocks : List (Nat × Nat) :=
  [(0x09, 0x0D), (0x1C, 0x20), (0x2C, 0x2C), (0x5B, 0x5B), (0x5D, 0x5D), (0x85, 0x85),
   (0xA0, 0xA0), (0x1680, 0x1680), (0x2000, 0x200A), (0x2028, 0x2029), (0x202F, 0x202F),
   (0x205F, 0x205F), (0x3000, 0x3000)]

theorem low_high_valid : ∀ b ∈ lowerBlocks, -b.shift ≤ b.first ∧
    (b.high < 0xD800 ∨ 0xE000 ≤ b.low ∧ b.high < 0x110000) := by
  decide +kernel

theorem clears_lowerBlocks :
    (lowerBlocks.all fun b => lowerBlocks.all b.clears) = true := by
  decide +kernel

theorem disjoint_cased : disjointBlocks apartBlocks casedBlocks = true := by decide +kernel

theorem disjoint_caseIgnorable : disjointBlocks apartBlocks caseIgnorableBlocks = true := by
  decide +kernel

theorem disjoint_covered :
    disjointBlocks apartBlocks (lowerBlocks.map fun b => (b.first, b.last)) = true := by
  decide +kernel

/-- The capital I with a dot has no form in the blocks, and is none itself. -/
theorem disjoint_forms :
    disjointBlocks (lowerBlocks.map fun b => (b.low, b.high)) ((0x130, 0x130) :: apartBlocks)
      = true := by
  decide +kernel

/-! ## Code points -/

theorem lowerCode_cases (n : Nat) :
    (lowerCode n = n ∧ ∀ b ∈ lowerBlocks, b.covers n = false) ∨
      ∃ b ∈ lowerBlocks, b.covers n = true ∧ lowerCode n = b.low + (n - b.first) ∧
        lowerCode n ≤ b.high := by
  unfold lowerCode
  cases hf : lowerBlocks.find? (·.covers n) with
  | none =>
    refine .inl ⟨rfl, fun b hb => ?_⟩
    simpa using List.find?_eq_none.1 hf b hb
  | some b =>
    have hb := List.mem_of_find?_eq_some hf
    have hc := List.find?_some hf
    have hshift := (low_high_valid b hb).1
    obtain ⟨hfirst, hlast, -⟩ := CaseBlock.covers_iff.1 hc
    refine .inr ⟨b, hb, hc, ?_, ?_⟩
    · show ((n : Int) + b.shift).toNat = b.low + (n - b.first)
      unfold CaseBlock.low
      omega
    · show ((n : Int) + b.shift).toNat ≤ b.high
      unfold CaseBlock.high
      omega

theorem lowerCode_of_not_covered (h : ∀ b ∈ lowerBlocks, b.covers n = false) :
    lowerCode n = n := by
  rcases lowerCode_cases n with ⟨heq, -⟩ | ⟨b, hb, hc, -⟩
  · exact heq
  · rw [h b hb] at hc
    cases hc

theorem lowerCode_lowerCode (n : Nat) : lowerCode (lowerCode n) = lowerCode n := by
  rcases lowerCode_cases n with ⟨heq, -⟩ | ⟨b, hb, hc, heq, hhigh⟩
  · rw [heq, heq]
  · refine lowerCode_of_not_covered fun c hcmem => ?_
    rw [← Bool.not_eq_true]
    intro hcovers
    have hclears := List.all_eq_true.1 (List.all_eq_true.1 clears_lowerBlocks b hb) c hcmem
    obtain ⟨hfirst, hlast, hstep⟩ := CaseBlock.covers_iff.1 hc
    obtain ⟨hcfirst, hclast, hcstep⟩ := CaseBlock.covers_iff.1 hcovers
    rcases CaseBlock.clears_iff.1 hclears with h | h | ⟨h | h, htwo, hodd⟩
    · omega
    · omega
    -- both blocks skip every other code point, and they do not skip the same ones
    · rw [h] at hstep
      rw [htwo] at hcstep
      omega
    · rw [htwo] at hcstep
      omega

theorem isValidChar_lowerCode (h : n.isValidChar) : (lowerCode n).isValidChar := by
  rcases lowerCode_cases n with ⟨heq, -⟩ | ⟨b, hb, -, heq, hhigh⟩
  · rwa [heq]
  · have hvalid := (low_high_valid b hb).2
    unfold Nat.isValidChar
    omega

/-- Between the least and the greatest form of a block there is no character between names. -/
theorem inBlocks_lowerCode {b : CaseBlock} (hb : b ∈ lowerBlocks)
    (heq : lowerCode n = b.low + (n - b.first)) (hhigh : lowerCode n ≤ b.high) :
    inBlocks ((0x130, 0x130) :: apartBlocks) (lowerCode n) = false := by
  refine inBlocks_of_disjoint disjoint_forms (inBlocks_iff.2 ⟨(b.low, b.high), ?_, ?_, hhigh⟩)
  · exact List.mem_map.2 ⟨b, hb, rfl⟩
  · show b.low ≤ lowerCode n
    omega

theorem lowerCode_apart (h : inBlocks apartBlocks n = true) : lowerCode n = n := by
  have hfree := inBlocks_of_disjoint disjoint_covered h
  refine lowerCode_of_not_covered fun b hb => ?_
  rw [← Bool.not_eq_true]
  intro hc
  obtain ⟨hfirst, hlast, -⟩ := CaseBlock.covers_iff.1 hc
  rw [← Bool.not_eq_true, inBlocks_iff] at hfree
  exact hfree ⟨(b.first, b.last), List.mem_map.2 ⟨b, hb, rfl⟩, hfirst, hlast⟩

theorem apart_of_lowerCode (h : inBlocks apartBlocks (lowerCode n) = true) :
    inBlocks apartBlocks n = true := by
  rcases lowerCode_cases n with ⟨heq, -⟩ | ⟨b, hb, -, heq, hhigh⟩
  · rwa [heq] at h
  · have hforms := inBlocks_lowerCode hb heq hhigh
    rw [inBlocks, List.any_cons, Bool.or_eq_false_iff] at hforms
    rw [inBlocks, hforms.2] at h
    cases h

theorem lowerCode_ne_dotted (h : n ≠ 0x130) : lowerCode n ≠ 0x130 := by
  rcases lowerCode_cases n with ⟨heq, -⟩ | ⟨b, hb, -, heq, hhigh⟩
  · rwa [heq]
  · have hforms := inBlocks_lowerCode hb heq hhigh
    rw [inBlocks, List.any_cons, Bool.or_eq_false_iff] at hforms
    intro hdot
    rw [hdot] at hforms
    cases hforms.1

/-! ## Characters -/

theorem toNat_ofNat {n : Nat} (h : n.isValidChar) : (Char.ofNat n).toNat = n := by
  rw [Char.ofNat, dif_pos h]
  rfl

theorem lowerChar_of_ne {c : Char} (h : c ≠ 'İ') :
    lowerChar c = [Char.ofNat (lowerCode c.toNat)] := by
  rw [lowerChar, if_neg h]

theorem toNat_lowerCode (c : Char) : (Char.ofNat (lowerCode c.toNat)).toNat = lowerCode c.toNat :=
  toNat_ofNat (isValidChar_lowerCode c.valid)

/-- What a character becomes in lower case stays as it is. -/
theorem lowerChar_of_mem {c d : Char} (h : d ∈ lowerChar c) : lowerChar d = [d] := by
  by_cases hc : c = 'İ'
  · subst hc
    rcases List.mem_cons.1 h with rfl | h
    · decide +kernel
    · obtain rfl := List.mem_singleton.1 h
      decide +kernel
  · rw [lowerChar_of_ne hc, List.mem_singleton] at h
    have hd : d.toNat = lowerCode c.toNat := h ▸ toNat_lowerCode c
    have hne : d ≠ 'İ' := by
      rintro rfl
      exact lowerCode_ne_dotted (fun hc' => hc (Char.toNat_inj.1 hc')) hd.symm
    rw [lowerChar_of_ne hne, hd, lowerCode_lowerCode, ← hd, Char.ofNat_toNat]

theorem lowerChar_ne_nil (c : Char) : lowerChar c ≠ [] := by
  unfold lowerChar
  split <;> exact List.cons_ne_nil _ _

/-! ## Characters between names -/

def isApart (c : Char) : Bool := inBlocks apartBlocks c.toNat

theorem isCased_of_isApart {c : Char} (h : isApart c = true) : isCased c = false :=
  inBlocks_of_disjoint disjoint_cased h

theorem isCaseIgnorable_of_isApart {c : Char} (h : isApart c = true) :
    isCaseIgnorable c = false :=
  inBlocks_of_disjoint disjoint_caseIgnorable h

theorem lowerChar_of_isApart {c : Char} (h : isApart c = true) : lowerChar c = [c] := by
  have hc : c ≠ 'İ' := by
    rintro rfl
    revert h
    decide
  rw [lowerChar_of_ne hc, lowerCode_apart h, Char.ofNat_toNat]

theorem isApart_of_mem_lowerChar {c d : Char} (h : d ∈ lowerChar c) (hd : isApart d = true) :
    isApart c = true := by
  by_cases hc : c = 'İ'
  · subst hc
    rcases List.mem_cons.1 h with rfl | h
    · revert hd
      decide
    · obtain rfl := List.mem_singleton.1 h
      revert hd
      decide
  · rw [lowerChar_of_ne hc, List.mem_singleton] at h
    subst h
    rw [isApart, toNat_lowerCode] at hd
    exact apart_of_lowerCode hd

end HierarchyLint.Text
