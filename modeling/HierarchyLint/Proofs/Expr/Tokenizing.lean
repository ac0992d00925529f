import HierarchyLint.Proofs.Expr.Cutting
import Mathlib.Data.List.Perm.Basic
import Mathlib.Data.List.Nodup

/-!
# What the tokens of a text are

`Tokenizes text ts` says what the tokens of a text are and not how they are found: slices of the
text, one behind the other, that leave out the blanks and nothing else, each bracket and comma by
itself and each name as long as it can be. Two such slices that share a character are the same
(`StandsIn.eq`). Main statement: `tokenize` gives the one list that has these properties.
-/

namespace HierarchyLint

/-- The characters that a token of the kind may have. -/
def TokenKind.Fits : TokenKind → List Char → Prop
  | .name, cs => IsName cs
  | .leftBracket, cs => cs = ['[']
  | .rightBracket, cs => cs = [']']
  | .comma, cs => cs = [',']
  | .blank, cs => cs ≠ [] ∧ ∀ c ∈ cs, Text.isBlank c = true
  | .finish, cs => cs = []

/-- The character at the index is one of the token. -/
def Token.Covers (t : Token) (i : Nat) : Prop := t.index ≤ i ∧ i < t.index + t.text.length

/-- The tokens are those of the text. -/
structure Tokenizes (text : String) (ts : List Token) : Prop where
  /-- The last token, and no other, marks the end of the text. -/
  finish : ∃ front, ts = front ++ [Token.finish text.length] ∧ ∀ t ∈ front, t.kind ≠ .finish
  /-- The others are parts of the text, found at their index. -/
  slice : ∀ t ∈ ts, t.kind ≠ .finish →
    t.text ≠ "" ∧ t.text.toList = (text.toList.drop t.index).take t.text.length
  fits : ∀ t ∈ ts, t.kind.Fits t.text.toList
  ordered : ts.Pairwise fun t u => t.index < u.index ∧ t.index + t.text.length ≤ u.index
  /-- The blanks, and they alone, are left out. -/
  blank_iff : ∀ i c, text.toList[i]? = some c →
    (Text.isBlank c = true ↔ ¬ ∃ t ∈ ts, t.Covers i)
  delimiter : ∀ i c kind, text.toList[i]? = some c →
    (c, kind) ∈ [('[', TokenKind.leftBracket), (']', .rightBracket), (',', .comma)] →
    ⟨kind, String.singleton c, i⟩ ∈ ts
  /-- No name goes on in front of a token that is a name, or behind it. -/
  stops : ∀ t ∈ ts, t.kind = .name → ∀ i c, text.toList[i]? = some c →
    i + 1 = t.index ∨ i = t.index + t.text.length → ¬ IsName [c]

namespace Token

/-- The token is a slice of the text at its index, of its kind and no part of a longer name. -/
structure StandsIn (t : Token) (text : String) : Prop where
  slice : t.text.toList = (text.toList.drop t.index).take t.text.length
  fits : t.kind.Fits t.text.toList
  stops : t.kind = .name → ∀ i c, text.toList[i]? = some c →
    i + 1 = t.index ∨ i = t.index + t.text.length → ¬ IsName [c]

section
variable {text : String} {t u : Token} {i : Nat} {c : Char}

/-! ## Tokens that share a character -/

/-- One character that is not blank settles the kind of its token. -/
theorem kind_eq_of_mem (hfits : t.kind.Fits t.text.toList) (hc : c ∈ t.text.toList)
    (hblank : Text.isBlank c = false) : t.kind = kindOf c := by
  revert hfits
  cases t.kind with
  | name =>
    intro hfits
    exact (kindOf_of_isName (isNameChar_of_isName hfits c hc)).symm
  | leftBracket | rightBracket | comma =>
    intro hfits
    rw [hfits] at hc
    rw [List.mem_singleton.1 hc]
    rfl
  | blank =>
    intro hfits
    rw [hfits.2 c hc] at hblank
    cases hblank
  | finish =>
    intro hfits
    rw [hfits] at hc
    cases hc

/-- Unless it is a name, the token is that character by itself. -/
theorem text_eq_of_mem (hfits : t.kind.Fits t.text.toList) (hc : c ∈ t.text.toList)
    (hblank : Text.isBlank c = false) (hname : t.kind ≠ .name) : t.text = String.singleton c := by
  rw [← String.toList_inj, String.toList_singleton]
  revert hfits hname
  cases t.kind with
  | name =>
    intro _ hname
    exact absurd rfl hname
  | leftBracket | rightBracket | comma =>
    intro hfits _
    rw [hfits] at hc ⊢
    rw [List.mem_singleton.1 hc]
  | blank =>
    intro hfits _
    rw [hfits.2 c hc] at hblank
    cases hblank
  | finish =>
    intro hfits _
    rw [hfits] at hc
    cases hc

theorem StandsIn.getElem?_index_add (h : t.StandsIn text) {j : Nat} (hj : j < t.text.length) :
    text.toList[t.index + j]? = t.text.toList[j]? := by
  rw [h.slice, List.getElem?_take_of_lt hj, List.getElem?_drop]

theorem StandsIn.exists_char (h : t.StandsIn text) (hi : t.Covers i) :
    ∃ c ∈ t.text.toList, text.toList[i]? = some c := by
  obtain ⟨j, rfl⟩ := Nat.exists_eq_add_of_le hi.1
  have hj : j < t.text.toList.length := by
    have := hi.2
    rw [String.length_toList]
    omega
  refine ⟨t.text.toList[j], List.getElem_mem hj, ?_⟩
  rw [h.getElem?_index_add (by rwa [← String.length_toList]), List.getElem?_eq_getElem hj]

theorem StandsIn.isName_of_covers (h : t.StandsIn text) (hk : t.kind = .name) (hi : t.Covers i)
    (hc : text.toList[i]? = some c) : IsName [c] := by
  obtain ⟨d, hd, hget⟩ := h.exists_char hi
  obtain rfl : c = d := Option.some.inj (hc.symm.trans hget)
  have hname : IsName t.text.toList := by
    have hfits := h.fits
    rwa [hk] at hfits
  exact (isName_singleton_iff c).2 (isNameChar_of_isName hname c hd)

/-- Of two names with a common character the one does not begin in front of the other. -/
theorem StandsIn.index_le (ht : t.StandsIn text) (hu : u.StandsIn text) (hkt : t.kind = .name)
    (hku : u.kind = .name) (hti : t.Covers i) (hui : u.Covers i) : u.index ≤ t.index := by
  refine Nat.le_of_not_lt fun hlt => ?_
  obtain ⟨-, htlt⟩ := hti
  obtain ⟨hule, -⟩ := hui
  have hcovers : t.Covers (u.index - 1) := ⟨by omega, by omega⟩
  obtain ⟨c, -, hc⟩ := ht.exists_char hcovers
  exact hu.stops hku _ c hc (.inl (by omega)) (ht.isName_of_covers hkt hcovers hc)

/-- Nor does it end behind the other. -/
theorem StandsIn.end_le (ht : t.StandsIn text) (hu : u.StandsIn text) (hkt : t.kind = .name)
    (hku : u.kind = .name) (hti : t.Covers i) (hui : u.Covers i) :
    t.index + t.text.length ≤ u.index + u.text.length := by
  refine Nat.le_of_not_lt fun hlt => ?_
  obtain ⟨htle, -⟩ := hti
  obtain ⟨-, hult⟩ := hui
  have hcovers : t.Covers (u.index + u.text.length) := ⟨by omega, by omega⟩
  obtain ⟨c, -, hc⟩ := ht.exists_char hcovers
  exact hu.stops hku _ c hc (.inr rfl) (ht.isName_of_covers hkt hcovers hc)

/-- Two tokens of a text with a common character that is not blank are the same. -/
theorem StandsIn.eq (ht : t.StandsIn text) (hu : u.StandsIn text) (hti : t.Covers i)
    (hui : u.Covers i) (hc : text.toList[i]? = some c) (hblank : Text.isBlank c = false) :
    t = u := by
  have hmem : ∀ {v : Token}, v.StandsIn text → v.Covers i → c ∈ v.text.toList := by
    intro v hv hvi
    obtain ⟨d, hd, hget⟩ := hv.exists_char hvi
    rwa [Option.some.inj (hc.symm.trans hget)]
  have hkind : t.kind = u.kind :=
    (kind_eq_of_mem ht.fits (hmem ht hti) hblank).trans
      (kind_eq_of_mem hu.fits (hmem hu hui) hblank).symm
  have hplace : t.index = u.index ∧ t.text.length = u.text.length := by
    by_cases hkt : t.kind = .name
    · have hku : u.kind = .name := hkind ▸ hkt
      have h1 := ht.index_le hu hkt hku hti hui
      have h2 := hu.index_le ht hku hkt hui hti
      have h3 := ht.end_le hu hkt hku hti hui
      have h4 := hu.end_le ht hku hkt hui hti
      omega
    · have h1 := text_eq_of_mem ht.fits (hmem ht hti) hblank hkt
      have h2 := text_eq_of_mem hu.fits (hmem hu hui) hblank (hkind ▸ hkt)
      obtain ⟨hle, hlt⟩ := hti
      obtain ⟨hle', hlt'⟩ := hui
      rw [h1, String.length_singleton] at hlt
      rw [h2, String.length_singleton] at hlt'
      rw [h1, h2]
      omega
  have htext : t.text = u.text := by
    rw [← String.toList_inj, ht.slice, hu.slice, hplace.1, hplace.2]
  obtain ⟨tk, tt, ti⟩ := t
  obtain ⟨uk, ut, ui⟩ := u
  obtain ⟨rfl, -⟩ := hplace
  obtain rfl : tk = uk := hkind
  obtain rfl : tt = ut := htext
  rfl

end

/-! ## The tokens that scanning finds -/

section
variable {i j : Nat} {cs : List Char} {t : Token} {ts : List Token} {c : Char}

theorem covers_singleton (kind : TokenKind) (c : Char) (i : Nat) :
    Covers ⟨kind, String.singleton c, i⟩ i := by
  simp [Covers]

/-- A token at the front of some characters is the first of them, and no name goes on behind it. -/
theorem Lexed.exists_append (h : Lexed i cs (t :: ts)) (hi : t.index = i) :
    ∃ rest, cs = t.text.toList ++ rest ∧ t.text ≠ "" ∧ t.kind.Fits t.text.toList ∧
      (∀ c ∈ t.text.toList, Text.isBlank c = false) ∧
      (t.kind = .name → ∀ c ∈ rest.head?, ¬ IsName [c]) := by
  have single : ∀ {kind : TokenKind} {c : Char} {rest : List Char}, kind.Fits [c] → kind ≠ .name →
      Text.isBlank c = false →
      ∃ rest', c :: rest = (String.singleton c).toList ++ rest' ∧ String.singleton c ≠ "" ∧
        kind.Fits (String.singleton c).toList ∧
        (∀ d ∈ (String.singleton c).toList, Text.isBlank d = false) ∧
        (kind = .name → ∀ c ∈ rest'.head?, ¬ IsName [c]) := by
    intro kind c rest hfits hname hblank
    rw [String.toList_singleton]
    exact ⟨rest, rfl, by simp, hfits, by simpa using hblank, fun hk => absurd hk hname⟩
  cases h with
  | blank _ hrest =>
    have := (hrest.index_bounds t (List.mem_cons_self ..)).1
    omega
  | leftBracket _ | rightBracket _ | comma _ => exact single rfl nofun rfl
  | @name _ n rest _ hn hstop _ =>
    have hne : String.ofList n ≠ "" := by
      rw [← String.toList_inj.ne, String.toList_ofList]
      exact hn.ne_nil
    show ∃ rest', n ++ rest = (String.ofList n).toList ++ rest' ∧ String.ofList n ≠ "" ∧
      IsName (String.ofList n).toList ∧ _
    rw [String.toList_ofList]
    exact ⟨rest, rfl, hne, hn, fun c hc => (hn.chars c hc).2.2.2, fun _ => hstop⟩

theorem exists_covers_cons_single {kind : TokenKind} {d : Char}
    (hts : ∀ {j : Nat}, cs[j]? = some c → ∃ t ∈ ts, t.Covers (i + 1 + j))
    (hc : (d :: cs)[j]? = some c) :
    ∃ t ∈ ⟨kind, String.singleton d, i⟩ :: ts, t.Covers (i + j) := by
  cases j with
  | zero => exact ⟨_, List.mem_cons_self .., covers_singleton kind d i⟩
  | succ j =>
    obtain ⟨t, ht, hcovers⟩ := hts hc
    have hindex : i + 1 + j = i + (j + 1) := by omega
    exact ⟨t, List.mem_cons_of_mem _ ht, hindex ▸ hcovers⟩

theorem Lexed.exists_covers (h : Lexed i cs ts) (hc : cs[j]? = some c)
    (hblank : Text.isBlank c = false) : ∃ t ∈ ts, t.Covers (i + j) := by
  induction h generalizing j with
  | finish => cases hc
  | @blank i d cs ts hd _ ih =>
    cases j with
    | zero =>
      cases hc
      rw [hd] at hblank
      cases hblank
    | succ j =>
      have hindex : i + (j + 1) = i + 1 + j := by omega
      rw [hindex]
      exact ih hc
  | leftBracket _ ih | rightBracket _ ih | comma _ ih => exact exists_covers_cons_single ih hc
  | @name i n cs ts _ _ _ ih =>
    rcases Nat.lt_or_ge j n.length with hj | hj
    · refine ⟨_, List.mem_cons_self .., Nat.le_add_right i j, ?_⟩
      show i + j < i + (String.ofList n).length
      rw [String.length_ofList]
      omega
    · rw [List.getElem?_append_right hj] at hc
      obtain ⟨t, ht, hcovers⟩ := ih hc
      have hindex : i + n.length + (j - n.length) = i + j := by omega
      exact ⟨t, List.mem_cons_of_mem _ ht, hindex ▸ hcovers⟩

end

section
variable {text : String} {t u : Token} {i : Nat} {c : Char}

/-- The tokens that scanning finds stand in the text and hold no blank. -/
theorem standsIn_of_mem_scan (h : t ∈ scan 0 text.toList) :
    t.StandsIn text ∧ t.text ≠ "" ∧ ∀ c ∈ t.text.toList, Text.isBlank c = false := by
  obtain ⟨ts, us, hscan⟩ := List.append_of_mem h
  obtain ⟨as, bs, htext, hcut⟩ := (hscan ▸ lexed_scan 0 text.toList).cut
  obtain ⟨rest, rfl, hne, hfits, hblank, hstop⟩ := hcut.back.exists_append rfl
  have hindex : t.index = as.length := by rw [hcut.index, Nat.zero_add]
  refine ⟨⟨?_, hfits, ?_⟩, hne, hblank⟩
  · rw [htext, hindex, List.drop_left, ← String.length_toList, List.take_left]
  · intro hk i c hc hi
    rw [htext] at hc
    rcases hi with hi | hi
    · have hlast : c ∈ as.getLast? := by
        rw [List.getElem?_append_left (by omega)] at hc
        rw [List.getLast?_eq_getElem?, ← hindex, ← hi]
        exact hc
      have hname : IsName t.text.toList := by
        rwa [hk] at hfits
      obtain ⟨d, more, hd⟩ := List.exists_cons_of_ne_nil hname.ne_nil
      have hdname : IsName [d] :=
        (isName_singleton_iff d).2 (isNameChar_of_isName hname d (hd ▸ List.mem_cons_self ..))
      exact fun hcname => hcut.seam c hlast d (by rw [hd]; rfl) ⟨hcname, hdname⟩
    · refine hstop hk c ?_
      rw [hi, hindex, List.getElem?_append_right (Nat.le_add_right ..), Nat.add_sub_cancel_left,
        ← String.length_toList, List.getElem?_append_right (Nat.le_refl _), Nat.sub_self] at hc
      rwa [List.head?_eq_getElem?]

theorem StandsIn.end_le_length (h : t.StandsIn text) (hne : t.text ≠ "") :
    t.index + t.text.length ≤ text.length := by
  have hlength := congrArg List.length h.slice
  have hpos : t.text.length ≠ 0 := by
    rwa [ne_eq, String.length_eq_zero_iff]
  rw [List.length_take, List.length_drop, String.length_toList, String.length_toList] at hlength
  omega

theorem covers_index (hne : t.text ≠ "") : t.Covers t.index := by
  have hpos : t.text.length ≠ 0 := by
    rwa [ne_eq, String.length_eq_zero_iff]
  exact ⟨Nat.le_refl _, by omega⟩

theorem end_le_of_mem_scan (ht : t ∈ scan 0 text.toList) (hu : u ∈ scan 0 text.toList)
    (hlt : t.index < u.index) : t.index + t.text.length ≤ u.index := by
  refine Nat.le_of_not_lt fun hover => ?_
  obtain ⟨hts, -, -⟩ := standsIn_of_mem_scan ht
  obtain ⟨hus, hune, hublank⟩ := standsIn_of_mem_scan hu
  obtain ⟨c, hc, hget⟩ := hus.exists_char (covers_index hune)
  have heq : t = u :=
    hts.eq hus ⟨Nat.le_of_lt hlt, hover⟩ (covers_index hune) hget (hublank c hc)
  rw [heq] at hlt
  exact Nat.lt_irrefl _ hlt

end

end Token

/-! ## Whole texts -/

open Token

section
variable {text : String} {t : Token} {ts us : List Token} {i : Nat} {c : Char}

theorem mem_tokenize_iff :
    t ∈ tokenize text ↔ t ∈ scan 0 text.toList ∨ t = Token.finish text.length := by
  rw [tokenize, List.mem_append, List.mem_singleton]

theorem not_covers_finish (n i : Nat) : ¬ (Token.finish n).Covers i := by
  rintro ⟨hle, hlt⟩
  exact Nat.not_lt.2 hle hlt

theorem exists_covers_iff (hc : text.toList[i]? = some c) :
    (∃ t ∈ tokenize text, t.Covers i) ↔ Text.isBlank c = false := by
  constructor
  · rintro ⟨t, ht, hi⟩
    rcases mem_tokenize_iff.1 ht with ht | rfl
    · obtain ⟨hstands, -, hblank⟩ := standsIn_of_mem_scan ht
      obtain ⟨d, hd, hget⟩ := hstands.exists_char hi
      rw [Option.some.inj (hc.symm.trans hget)]
      exact hblank d hd
    · exact absurd hi (not_covers_finish _ _)
  · intro hblank
    obtain ⟨t, ht, hi⟩ := (lexed_scan 0 text.toList).exists_covers hc hblank
    rw [Nat.zero_add] at hi
    exact ⟨t, mem_tokenize_iff.2 (.inl ht), hi⟩

theorem mem_tokenize_of_delimiter (hc : text.toList[i]? = some c) (hblank : Text.isBlank c = false)
    (hname : kindOf c ≠ .name) : ⟨kindOf c, String.singleton c, i⟩ ∈ tokenize text := by
  obtain ⟨t, ht, hi⟩ := (exists_covers_iff hc).2 hblank
  rcases mem_tokenize_iff.1 ht with hscan | rfl
  · obtain ⟨hstands, -, -⟩ := standsIn_of_mem_scan hscan
    obtain ⟨d, hd, hget⟩ := hstands.exists_char hi
    obtain rfl := Option.some.inj (hc.symm.trans hget)
    have hkind := kind_eq_of_mem hstands.fits hd hblank
    have htext := text_eq_of_mem hstands.fits hd hblank (hkind ▸ hname)
    have hindex : t.index = i := by
      obtain ⟨hle, hlt⟩ := hi
      rw [htext, String.length_singleton] at hlt
      omega
    rw [← hkind, ← htext, ← hindex]
    exact ht
  · exact absurd hi (not_covers_finish _ _)

theorem tokenizes_tokenize (text : String) : Tokenizes text (tokenize text) where
  finish := ⟨_, rfl, (lexed_scan 0 text.toList).kind_ne_finish⟩
  slice t ht hk := by
    rcases mem_tokenize_iff.1 ht with ht | rfl
    · obtain ⟨hstands, hne, -⟩ := standsIn_of_mem_scan ht
      exact ⟨hne, hstands.slice⟩
    · exact absurd rfl hk
  fits t ht := by
    rcases mem_tokenize_iff.1 ht with ht | rfl
    · exact (standsIn_of_mem_scan ht).1.fits
    · rfl
  ordered := by
    refine List.pairwise_append.2 ⟨?_, List.pairwise_singleton _ _, ?_⟩
    · refine (lexed_scan 0 text.toList).pairwise_index.imp_of_mem fun ht hu hlt => ?_
      exact ⟨hlt, end_le_of_mem_scan ht hu hlt⟩
    · intro t ht u hu
      obtain rfl := List.mem_singleton.1 hu
      obtain ⟨hstands, hne, -⟩ := standsIn_of_mem_scan ht
      exact ⟨index_lt_length ht, hstands.end_le_length hne⟩
  blank_iff i c hc := by
    rw [exists_covers_iff hc, Bool.not_eq_false]
  delimiter i c kind hc hkind := by
    simp only [List.mem_cons, Prod.mk.injEq, List.not_mem_nil, or_false] at hkind
    obtain ⟨rfl, rfl⟩ | ⟨rfl, rfl⟩ | ⟨rfl, rfl⟩ := hkind
    · exact mem_tokenize_of_delimiter hc rfl nofun
    · exact mem_tokenize_of_delimiter hc rfl nofun
    · exact mem_tokenize_of_delimiter hc rfl nofun
  stops t ht hk := by
    rcases mem_tokenize_iff.1 ht with ht | rfl
    · exact (standsIn_of_mem_scan ht).1.stops hk
    · cases hk

theorem Tokenizes.eq_finish (h : Tokenizes text ts) (ht : t ∈ ts) (hk : t.kind = .finish) :
    t = Token.finish text.length := by
  obtain ⟨front, rfl, hfront⟩ := h.finish
  rcases List.mem_append.1 ht with ht | ht
  · exact absurd hk (hfront t ht)
  · exact List.mem_singleton.1 ht

theorem Tokenizes.standsIn (h : Tokenizes text ts) (ht : t ∈ ts) (hk : t.kind ≠ .finish) :
    t.StandsIn text where
  slice := (h.slice t ht hk).2
  fits := h.fits t ht
  stops := h.stops t ht

/-- A token of one such list covers a character that is not blank, and so there is one of the other
list that covers it too. -/
theorem Tokenizes.subset (h : Tokenizes text ts) (k : Tokenizes text us) : ts ⊆ us := by
  intro t ht
  by_cases hk : t.kind = .finish
  · rw [h.eq_finish ht hk]
    obtain ⟨front, rfl, -⟩ := k.finish
    exact List.mem_append_right _ (List.mem_singleton.2 rfl)
  · have hstands := h.standsIn ht hk
    have hcovers := covers_index (h.slice t ht hk).1
    obtain ⟨c, -, hc⟩ := hstands.exists_char hcovers
    have hblank : ¬ Text.isBlank c = true := fun hb => (h.blank_iff _ c hc).1 hb ⟨t, ht, hcovers⟩
    obtain ⟨u, hu, hui⟩ := Classical.not_not.1 (mt (k.blank_iff _ c hc).2 hblank)
    have hku : u.kind ≠ .finish := by
      intro hku
      rw [k.eq_finish hu hku] at hui
      exact not_covers_finish _ _ hui
    rwa [hstands.eq (k.standsIn hu hku) hcovers hui hc (Bool.eq_false_iff.2 hblank)]

theorem Tokenizes.nodup (h : Tokenizes text ts) : ts.Nodup := by
  refine h.ordered.imp ?_
  rintro t _ hlt rfl
  exact Nat.lt_irrefl _ hlt.1

theorem Tokenizes.unique (h : Tokenizes text ts) (k : Tokenizes text us) : ts = us := by
  refine List.Perm.eq_of_pairwise (fun t u _ _ htu hut => ?_) h.ordered k.ordered ?_
  · exact absurd hut.1 (Nat.lt_asymm htu.1)
  · refine (List.perm_ext_iff_of_nodup h.nodup k.nodup).2 fun t => ⟨?_, ?_⟩
    · apply h.subset k
    · apply k.subset h

end

/-- The tokens that are found are those of the text, and a text has no other tokens: one at the end
marks it, the others are slices of the text in their order that leave out the blanks alone, each
bracket and comma is a token by itself, and no name is part of a longer one. -/
theorem eq_tokenize_iff_tokenizes (text : String) (ts : List Token) :
    ts = tokenize text ↔ Tokenizes text ts := by
  constructor
  · rintro rfl
    exact tokenizes_tokenize text
  · intro h
    exact h.unique (tokenizes_tokenize text)

end HierarchyLint
