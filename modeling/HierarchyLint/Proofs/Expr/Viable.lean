import HierarchyLint.Proofs.Expr.Brackets
import HierarchyLint.Proofs.Expr.Stopping

/-!
# Where errors are found

A text is viable if it can be completed to a type expression. Wherever reading has got to, the text
so far is viable: a name may be missing, and every open list takes its bracket (`closing`). So the
offending token of an error begins behind the longest viable front of the text, since what is read
depends on nothing but the tokens so far and the kind of the next one. Only a text that ends inside
a parameter list is viable as a whole; its error shows the innermost bracket that is open.
-/

namespace HierarchyLint

open TypeExpr

/-- Some characters behind the text make it a type expression. -/
def Viable (text : String) : Prop := ∃ more e, Spells (text ++ more) e

def front (text : String) (n : Nat) : String := String.ofList (text.toList.take n)

/-- The first `n` characters are the longest viable front of the text. -/
structure IsLongestViable (text : String) (n : Nat) : Prop where
  le_length : n ≤ text.length
  viable : Viable (front text n)
  longest : ∀ m, m ≤ text.length → Viable (front text m) → m ≤ n

section
variable {st : ReadState} {lists : List OpenList} {size : Nat} {text : String}

/-! ## Completing a text -/

/-- Characters that complete a text with the given number of open lists behind a place. They begin
with a blank, so that no name goes on in them. -/
def closing (st : ReadState) (lists : List OpenList) : List Char :=
  match st with
  | .needsName => ' ' :: 'a' :: List.replicate lists.length ']'
  | .hasExpr _ _ => ' ' :: List.replicate lists.length ']'

theorem exists_readExpr_brackets (e : TypeExpr) (bare : Bool) (i : Nat) :
    ∃ f, readExpr size (.hasExpr e bare) lists (Token.scan i (List.replicate lists.length ']'))
      = (.ok f, []) := by
  induction lists generalizing e bare i with
  | nil =>
    refine ⟨e, ?_⟩
    rw [List.length_nil, List.replicate_zero, Token.scan, readExpr]
  | cons l lists ih =>
    obtain ⟨f, hf⟩ := ih (l.add e).close false (i + 1)
    refine ⟨f, ?_⟩
    rw [List.length_cons, List.replicate_succ, Token.scan, if_neg (by decide)]
    exact (readExpr_rightBracket rfl).trans hf

theorem exists_readExpr_closing (size : Nat) (st : ReadState) (lists : List OpenList) (i : Nat) :
    ∃ f, readExpr size st lists (Token.scan i (closing st lists)) = (.ok f, []) := by
  cases st with
  | needsName =>
    have hname : IsName ['a'] := (Token.isName_singleton_iff 'a').2 (by decide)
    have hstop : ∀ c ∈ (List.replicate lists.length ']').head?, ¬ IsName [c] := by
      intro c hc
      rw [List.eq_of_mem_replicate (List.mem_of_mem_head? hc)]
      exact not_isName_rightBracket
    rw [closing, Token.scan, if_pos (by decide)]
    change ∃ f, readExpr size .needsName lists
      (Token.scan (i + 1) (['a'] ++ List.replicate lists.length ']')) = (.ok f, [])
    rw [Token.scan_name_append hname hstop, readExpr_name rfl]
    exact exists_readExpr_brackets _ true _
  | hasExpr e bare =>
    rw [closing, Token.scan, if_pos (by decide)]
    exact exists_readExpr_brackets e bare (i + 1)

theorem viable_of_readsOver (h : ReadsOver .needsName [] (Token.scan 0 text.toList) st lists) :
    Viable text := by
  obtain ⟨e, he⟩ := exists_readExpr_closing 0 st lists text.toList.length
  have hseam : Token.Seam text.toList (closing st lists) := by
    intro c _ d hd
    cases st <;> cases hd <;> exact fun hcd => not_isName_blank (by decide) hcd.2
  have hscan : Token.scan 0 (text ++ String.ofList (closing st lists)).toList
      = Token.scan 0 text.toList ++ Token.scan text.toList.length (closing st lists) := by
    rw [String.toList_append, String.toList_ofList, Token.scan_append hseam, Nat.zero_add]
  refine ⟨String.ofList (closing st lists), e, parse_eq_ok_iff_spells.1 ?_⟩
  rw [parse_eq_ok_iff_derives, ← readExpr_eq_ok_iff 0, hscan, h]
  exact he

/-! ## The front of a text -/

theorem toList_front (text : String) (n : Nat) : (front text n).toList = text.toList.take n :=
  String.toList_ofList

theorem front_length (text : String) : front text text.length = text := by
  rw [front, ← String.length_toList, List.take_length, String.ofList_toList]

theorem isLongestViable_length (h : Viable text) : IsLongestViable text text.length where
  le_length := Nat.le_refl _
  viable := by rwa [front_length]
  longest _ hm _ := hm

/-- Where the reading of a text ends at a token, the characters in front of it are the longest
viable front. -/
theorem isLongestViable_index {done rest : List Token} {t : Token}
    {answer : Except ReadFailure TypeExpr} (hscan : Token.scan 0 text.toList = done ++ t :: rest)
    (hover : ReadsOver .needsName [] done st lists)
    (hend : Ends text.length st lists (t :: rest) answer) : IsLongestViable text t.index where
  le_length := by
    have ht : t ∈ Token.scan 0 text.toList := by simp [hscan]
    exact Nat.le_of_lt (Token.index_lt_length ht)
  viable := by
    have hfront : ReadsOver .needsName [] (Token.scan 0 (front text t.index).toList) st lists := by
      rwa [toList_front, Token.scan_take hscan]
    exact viable_of_readsOver hfront
  longest m _ hm := by
    refine Nat.le_of_not_lt fun hlt => ?_
    obtain ⟨more, e, he⟩ := hm
    have hagrees : text.toList.take (t.index + 1) <+: (front text m ++ more).toList := by
      rw [String.toList_append, toList_front]
      exact (List.take_prefix_take_left (by omega)).trans (List.prefix_append ..)
    obtain ⟨u, vs, hscan', hk, hi⟩ := Token.scan_of_agrees hscan hagrees
    obtain ⟨f, rfl, -, -⟩ := hend.exists_error
    have hend' : Ends (front text m ++ more).length st lists (u :: vs) (.error f) :=
      hend.of_same_kind hk hi
    rw [← parse_eq_ok_iff_spells, parse_of_ends hscan' hover hend'] at he
    cases he

end

/-! ## Errors -/

theorem InnermostOpen.le_length {text : String} {i : Nat} (h : InnermostOpen text.toList i) :
    i ≤ text.length := by
  obtain ⟨hlt, -⟩ := List.getElem?_eq_some_iff.1 h.bracket
  rw [← String.length_toList]
  exact Nat.le_of_lt hlt

/-- An error of parsing, in either mode, records its text and an index inside the text or at its
end. A missing name, a right bracket and extra characters are found behind the longest front of the
text that can be completed to a type expression. The error about a left bracket is that of a text
which can be completed as a whole, and its index is that of the innermost bracket still open. -/
theorem error_index_isLongestViable {text : String} {err : ParseError}
    (h : TypeExpr.parse text = .error err ∨ TypeExpr.parseCaseless text = .error err) :
    err.text = text ∧ ∃ i : Nat, err.index = i ∧ i ≤ text.length ∧
      ((err.fault ∈ [ParseFault.missingName, .rightBracket, .extraCharacters] ∧
          IsLongestViable text i) ∨
        (err.fault = .leftBracket ∧ Viable text ∧ InnermostOpen text.toList i)) := by
  replace h : TypeExpr.parse text = .error err := h.elim id map_eq_error_iff.1
  obtain ⟨done, rest, st, lists, answer, hscan, hover, hreads, hend, hparse⟩ := exists_ends text
  rw [hparse] at h
  cases rest with
  | nil =>
    rw [List.append_nil] at hscan
    have hviable : Viable text := viable_of_readsOver (hscan ▸ hover)
    cases hend with
    | done => cases h
    | empty =>
      cases h
      exact ⟨rfl, _, rfl, Nat.le_refl _, .inl ⟨by simp, isLongestViable_length hviable⟩⟩
    | unclosed =>
      cases h
      have hopen := (hscan.symm ▸ hreads).innermostOpen
      exact ⟨rfl, _, rfl, hopen.le_length, .inr ⟨rfl, hviable, hopen⟩⟩
  | cons t rest =>
    obtain ⟨f, rfl, hi, hfault⟩ := hend.exists_error
    cases h
    have hlongest := isLongestViable_index hscan hover hend
    exact ⟨rfl, _, congrArg _ hi, hlongest.le_length, .inl ⟨hfault, hlongest⟩⟩

theorem error_index_in_lists :
    (TypeExpr.parse "m[k l]" = .error ⟨.extraCharacters, "m[k l]", 4⟩ ∧
      IsLongestViable "m[k l]" 4) ∧
    (TypeExpr.parse "m[k, l[v], n[w" = .error ⟨.leftBracket, "m[k, l[v], n[w", 12⟩ ∧
      Viable "m[k, l[v], n[w" ∧ InnermostOpen "m[k, l[v], n[w".toList 12) := by
  have hextra : TypeExpr.parse "m[k l]" = .error ⟨.extraCharacters, "m[k l]", 4⟩ :=
    eq_error_of_error? (by decide +kernel)
  have hopen : TypeExpr.parse "m[k, l[v], n[w" = .error ⟨.leftBracket, "m[k, l[v], n[w", 12⟩ :=
    eq_error_of_error? (by decide +kernel)
  constructor
  · obtain ⟨-, i, hi, -, hcase⟩ := error_index_isLongestViable (.inl hextra)
    obtain rfl : 4 = i := Int.ofNat_inj.1 hi
    obtain ⟨-, hlongest⟩ | ⟨hfault, -⟩ := hcase
    · exact ⟨hextra, hlongest⟩
    · cases hfault
  · obtain ⟨-, i, hi, -, hcase⟩ := error_index_isLongestViable (.inl hopen)
    obtain rfl : 12 = i := Int.ofNat_inj.1 hi
    obtain ⟨hfault, -⟩ | ⟨-, hviable, hinnermost⟩ := hcase
    · cases hfault with
      | tail _ h => nomatch h
    · exact ⟨hopen, hviable, hinnermost⟩

end HierarchyLint
