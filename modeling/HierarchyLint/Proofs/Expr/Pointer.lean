import HierarchyLint.Proofs.Expr.Viable
import Mathlib.Data.List.TakeWhile

/-!
# The caret of a parse error

The pointer of an error is the text and, on a line of its own below it, a caret behind as many
spaces as the index says. The index counts from the start of the whole text, though, and the line
of the caret is the one below the last line. So the caret stands under the offending place if the
text is a single line, and in no other case (`caretUnder_iff`); a text of several lines is an
expression as well, for a line feed is a blank between two tokens.
-/

namespace HierarchyLint

namespace Text

/-- The number of the line that holds the place: every line feed in front of it begins a line. -/
def row (cs : List Char) (i : Nat) : Nat := (cs.take i).count '\n'

/-- The number of characters since the last line feed in front of the place. -/
def column (cs : List Char) (i : Nat) : Nat :=
  ((cs.take i).reverse.takeWhile fun c => c ≠ '\n').length

theorem length_splitOn (c : Char) (cs : List Char) :
    (cs.splitOn c).length = cs.count c + 1 := by
  rw [List.splitOn_eq_splitOnP]
  induction cs with
  | nil => simp
  | cons d cs ih =>
    rw [List.splitOnP_cons_eq_if_modifyHead, List.count_cons]
    split
    · rw [List.length_cons, ih]
    · rw [List.length_modifyHead, ih, Nat.add_zero]

theorem toList_pushn (s : String) (c : Char) (n : Nat) :
    (s.pushn c n).toList = s.toList ++ List.replicate n c := by
  unfold String.pushn
  induction n with
  | zero => simp [Nat.repeat]
  | succ n ih =>
    rw [Nat.repeat, String.toList_push, ih, List.append_assoc, List.replicate_succ']

theorem row_eq_count_iff (cs : List Char) (i : Nat) :
    row cs i = cs.count '\n' ↔ '\n' ∉ cs.drop i := by
  have hsplit : cs.count '\n' = row cs i + (cs.drop i).count '\n' := by
    rw [row, ← List.count_append, List.take_append_drop]
  rw [← List.count_eq_zero]
  omega

/-- The column counts from the start of the text as long as no line feed has come. -/
theorem column_eq_iff {cs : List Char} {i : Nat} (hi : i ≤ cs.length) :
    column cs i = i ↔ '\n' ∉ cs.take i := by
  have hlen : (cs.take i).reverse.length = i := by
    rw [List.length_reverse, List.length_take, Nat.min_eq_left hi]
  unfold column
  constructor
  · intro h hmem
    have htake := (List.takeWhile_prefix _).eq_of_length (h.trans hlen.symm)
    have := List.takeWhile_eq_self_iff.1 htake '\n' (List.mem_reverse.2 hmem)
    simp at this
  · intro h
    have htake : (cs.take i).reverse.takeWhile (fun c => c ≠ '\n') = (cs.take i).reverse := by
      refine List.takeWhile_eq_self_iff.2 fun c hc => ?_
      have hne : c ≠ '\n' := fun heq => h (heq ▸ List.mem_reverse.1 hc)
      exact decide_eq_true hne
    rw [htake, hlen]

end Text

namespace ParseError

variable {e : ParseError} {i r c : Nat}

/-- Split at line feeds, the pointer ends with the line of the caret: that line has the number `r`,
and `c` characters stand in front of the caret. -/
def CaretAt (e : ParseError) (r c : Nat) : Prop :=
  ∃ above front, e.pointer.toList.splitOn '\n' = above ++ [front ++ ['^']] ∧
    above.length = r ∧ front.length = c

/-- The caret stands on the line below that of the offending place, in the column of the place. -/
def CaretUnder (e : ParseError) : Prop :=
  e.CaretAt (Text.row e.text.toList e.index.toNat + 1) (Text.column e.text.toList e.index.toNat)

theorem splitOn_pointer (e : ParseError) :
    e.pointer.toList.splitOn '\n' =
      e.text.toList.splitOn '\n' ++ [List.replicate e.index.toNat ' ' ++ ['^']] := by
  have hpointer : e.pointer.toList
      = e.text.toList ++ '\n' :: (List.replicate e.index.toNat ' ' ++ ['^']) := by
    simp [pointer, Text.toList_pushn]
  have hline : '\n' ∉ List.replicate e.index.toNat ' ' ++ ['^'] := by
    simp [List.mem_replicate]
  calc e.pointer.toList.splitOn '\n'
      = (e.text.toList ++ '\n' :: (List.replicate e.index.toNat ' ' ++ ['^'])).splitOn '\n' := by
        rw [hpointer]
    _ = e.text.toList.splitOn '\n'
          ++ (List.replicate e.index.toNat ' ' ++ ['^']).splitOn '\n' :=
        List.splitOnP_append_cons _ _ rfl
    _ = e.text.toList.splitOn '\n' ++ [List.replicate e.index.toNat ' ' ++ ['^']] := by
        rw [List.splitOn_eq_singleton hline]

/-- The caret ends the line below the whole text, behind as many characters as the index says. -/
theorem caretAt_iff : e.CaretAt r c ↔ r = e.text.toList.count '\n' + 1 ∧ c = e.index.toNat := by
  unfold CaretAt
  rw [splitOn_pointer]
  constructor
  · rintro ⟨above, front, heq, rfl, rfl⟩
    obtain ⟨habove, hline⟩ := List.append_inj' heq rfl
    obtain ⟨hfront, -⟩ := List.append_inj' (List.singleton_inj.1 hline) rfl
    rw [← habove, ← hfront, Text.length_splitOn, List.length_replicate]
    exact ⟨rfl, rfl⟩
  · rintro ⟨rfl, rfl⟩
    exact ⟨_, _, rfl, Text.length_splitOn _ _, List.length_replicate⟩

theorem caretUnder_iff (hindex : e.index = i) (hi : i ≤ e.text.length) :
    e.CaretUnder ↔ '\n' ∉ e.text.toList := by
  have hnat : e.index.toNat = i := by rw [hindex, Int.toNat_natCast]
  have hle : i ≤ e.text.toList.length := by rwa [String.length_toList]
  have hmem : '\n' ∉ e.text.toList ↔ '\n' ∉ e.text.toList.take i ∧ '\n' ∉ e.text.toList.drop i := by
    rw [← not_or, ← List.mem_append, List.take_append_drop]
  rw [CaretUnder, caretAt_iff, hnat, Nat.add_right_cancel_iff, Text.row_eq_count_iff,
    Text.column_eq_iff hle, hmem]
  exact And.comm

end ParseError

theorem exists_index_of_parse_eq_error {text : String} {err : ParseError}
    (h : TypeExpr.parse text = .error err) : ∃ i : Nat, err.index = i ∧ i ≤ text.length := by
  obtain ⟨done, rest, st, lists, answer, hscan, -, hreads, hend, hparse⟩ := exists_ends text
  rw [hparse] at h
  cases rest with
  | nil =>
    rw [List.append_nil] at hscan
    cases hend with
    | done => cases h
    | empty =>
      cases h
      exact ⟨_, rfl, Nat.le_refl _⟩
    | unclosed =>
      cases h
      exact ⟨_, rfl, (hscan.symm ▸ hreads).innermostOpen.le_length⟩
  | cons t rest =>
    obtain ⟨f, rfl, hi, -⟩ := hend.exists_error
    cases h
    have ht : t ∈ Token.scan 0 text.toList := by rw [hscan]; simp
    exact ⟨_, congrArg _ hi, Nat.le_of_lt (Token.index_lt_length ht)⟩

/-- The pointer of a rejected text, in either mode of parsing, has its caret on the line below the
last one, behind as many characters as the index counts in the whole text. That is under the
offending place exactly if the text has no line feed. -/
theorem caret_under_iff_single_line {text : String} {err : ParseError}
    (h : TypeExpr.parse text = .error err ∨ TypeExpr.parseCaseless text = .error err) :
    err.text = text ∧ ∃ i : Nat, err.index = i ∧ i ≤ text.length ∧
      (∀ r c, err.CaretAt r c ↔ r = text.toList.count '\n' + 1 ∧ c = i) ∧
      (err.CaretUnder ↔ '\n' ∉ text.toList) := by
  replace h : TypeExpr.parse text = .error err := h.elim id map_eq_error_iff.1
  obtain rfl : err.text = text := text_of_parse_eq_error h
  obtain ⟨i, hindex, hi⟩ := exists_index_of_parse_eq_error h
  refine ⟨rfl, i, hindex, hi, fun r c => ?_, ParseError.caretUnder_iff hindex hi⟩
  rw [ParseError.caretAt_iff, hindex, Int.toNat_natCast]

/-- On one line the caret stands under the `w`. Broken behind the comma, the text has the `w` in the
fourth column of its second line, and the caret stands in the ninth column below that line. -/
theorem caret_behind_comma :
    (TypeExpr.parse "m[k, v w]" = .error ⟨.extraCharacters, "m[k, v w]", 7⟩ ∧
      ParseError.CaretUnder ⟨.extraCharacters, "m[k, v w]", 7⟩) ∧
    (TypeExpr.parse "m[k,\n  v w]" = .error ⟨.extraCharacters, "m[k,\n  v w]", 9⟩ ∧
      ParseError.CaretAt ⟨.extraCharacters, "m[k,\n  v w]", 9⟩ 2 9 ∧
      ¬ ParseError.CaretUnder ⟨.extraCharacters, "m[k,\n  v w]", 9⟩) := by
  have hone : TypeExpr.parse "m[k, v w]" = .error ⟨.extraCharacters, "m[k, v w]", 7⟩ :=
    eq_error_of_error? (by decide +kernel)
  have htwo : TypeExpr.parse "m[k,\n  v w]" = .error ⟨.extraCharacters, "m[k,\n  v w]", 9⟩ :=
    eq_error_of_error? (by decide +kernel)
  obtain ⟨-, i, -, -, -, hunder⟩ := caret_under_iff_single_line (.inl hone)
  obtain ⟨-, j, hj, -, hat, hbeside⟩ := caret_under_iff_single_line (.inl htwo)
  obtain rfl : 9 = j := Int.ofNat_inj.1 hj
  exact ⟨⟨hone, hunder.2 (by decide)⟩, htwo, (hat 2 9).2 (by decide),
    fun h => hbeside.1 h (by decide)⟩

/-- The bracket that closes nothing begins the second line, but the caret is not below it. -/
theorem caret_beside_bracket :
    TypeExpr.parse "a\n]" = .error ⟨.rightBracket, "a\n]", 2⟩ ∧
    ParseError.pointer ⟨.rightBracket, "a\n]", 2⟩ = "a\n]\n  ^" ∧
    ¬ ParseError.CaretUnder ⟨.rightBracket, "a\n]", 2⟩ := by
  refine ⟨eq_error_of_error? (by decide +kernel), by decide +kernel, fun h => ?_⟩
  have hlength : 2 ≤ "a\n]".length := by decide
  exact (ParseError.caretUnder_iff rfl hlength).1 h (by decide)

end HierarchyLint
