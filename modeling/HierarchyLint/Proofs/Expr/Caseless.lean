import HierarchyLint.Proofs.Expr.Renaming
import HierarchyLint.Proofs.Text.Lower

/-!
# Expressions in lower case

Brackets, commas and blanks have no case, so a text in lower case has the tokens of the text with
their names in lower case (`lexed_lowerFrom`). No token begins where it did, for lower case may
make a name longer; what stays is the number of a token. Main statement: parsing a text and
lowering the names of the expression is parsing the text in lower case, and where the one fails
the other fails at the token with the same number.
-/

namespace HierarchyLint

open TypeExpr
open Token (Lexed)

/-- The characters between names are those that no name holds. -/
theorem isApart_iff {c : Char} : Text.isApart c = true ↔ ¬ IsName [c] := by
  have hchar (d : Char) : c = d ↔ c.toNat = d.toNat := Char.toNat_inj.symm
  have hleft : c = '[' ↔ c.toNat = 0x5B := hchar _
  have hright : c = ']' ↔ c.toNat = 0x5D := hchar _
  have hcomma : c = ',' ↔ c.toNat = 0x2C := hchar _
  rw [Token.isName_singleton_iff, Token.isNameChar_iff]
  simp only [ne_eq, hleft, hright, hcomma, Text.isBlank, Text.isApart, Text.inBlocks,
    Text.apartBlocks, List.any_cons, List.any_nil, Bool.or_eq_true, Bool.and_eq_true,
    Bool.or_eq_false_iff, Bool.and_eq_false_iff, decide_eq_true_eq, decide_eq_false_iff_not,
    beq_eq_false_iff_ne, Bool.false_eq_true, or_false]
  omega

theorem isApart_eq_false_iff {c : Char} : Text.isApart c = false ↔ IsName [c] := by
  rw [← Bool.not_eq_true, isApart_iff, Classical.not_not]

theorem isName_iff {cs : List Char} : IsName cs ↔ cs ≠ [] ∧ ∀ c ∈ cs, Text.isApart c = false := by
  constructor
  · intro h
    refine ⟨h.ne_nil, fun c hc => isApart_eq_false_iff.2 ?_⟩
    exact (Token.isName_singleton_iff c).2 (Token.isNameChar_of_isName h c hc)
  · rintro ⟨hne, hcs⟩
    exact ⟨hne, fun c hc => (isApart_eq_false_iff.1 (hcs c hc)).chars c (List.mem_singleton.2 rfl)⟩

theorem IsName.lowerFrom {n : List Char} (h : IsName n) (before : List Char) :
    IsName (Text.lowerFrom before n) := by
  obtain ⟨hne, hcs⟩ := isName_iff.1 h
  exact isName_iff.2 ⟨Text.lowerFrom_ne_nil hne before, Text.isApart_of_mem_lowerFrom hcs before⟩

theorem isName_lower_iff {s : String} : IsName (Text.lower s).toList ↔ IsName s.toList := by
  rw [Text.toList_lower]
  constructor
  · intro h
    obtain ⟨hne, hcs⟩ := isName_iff.1 h
    refine isName_iff.2 ⟨fun hnil => hne (by rw [hnil]; rfl), fun c hc => ?_⟩
    rw [← Bool.not_eq_true]
    intro hapart
    have hlower := hcs c (Text.mem_lowerFrom_of_isApart hapart hc [])
    rw [hapart] at hlower
    cases hlower
  · exact fun h => h.lowerFrom []

/-! ## Tokens -/

/-- The tokens in lower case, wherever they come to stand. -/
abbrev Token.Lowers : Token → Token → Prop := Token.Renames Text.lower fun _ _ => True

/-- The characters in lower case have the tokens in lower case, if no name goes on in front. -/
theorem lexed_lowerFrom {i : Nat} {cs : List Char} {ts : List Token} (h : Lexed i cs ts)
    {before : List Char}
    (hseam : ∀ b ∈ before.head?, ∀ c ∈ cs.head?, ¬(IsName [b] ∧ IsName [c])) (j : Nat) :
    ∃ us, Lexed j (Text.lowerFrom before cs) us ∧ List.Forall₂ Token.Lowers ts us := by
  -- behind a character between names no name goes on
  have apart : ∀ {c : Char} {before cs : List Char}, ¬ IsName [c] →
      ∀ b ∈ (c :: before).head?, ∀ d ∈ cs.head?, ¬(IsName [b] ∧ IsName [d]) := by
    intro c before cs hc b hb d _ hbd
    obtain rfl : c = b := Option.some.inj hb
    exact hc hbd.1
  induction h generalizing before j with
  | finish => exact ⟨[], .finish, .nil⟩
  | @blank i c cs ts hblank _ ih =>
    have hc := not_isName_blank hblank
    obtain ⟨us, hus, htokens⟩ := ih (apart hc) (j + 1)
    rw [Text.lowerFrom_of_isApart (isApart_iff.2 hc)]
    exact ⟨us, .blank hblank hus, htokens⟩
  | leftBracket _ ih =>
    obtain ⟨us, hus, htokens⟩ := ih (apart not_isName_leftBracket) (j + 1)
    rw [Text.lowerFrom_of_isApart (isApart_iff.2 not_isName_leftBracket)]
    exact ⟨_, .leftBracket hus, .cons ⟨rfl, nofun, trivial⟩ htokens⟩
  | rightBracket _ ih =>
    obtain ⟨us, hus, htokens⟩ := ih (apart not_isName_rightBracket) (j + 1)
    rw [Text.lowerFrom_of_isApart (isApart_iff.2 not_isName_rightBracket)]
    exact ⟨_, .rightBracket hus, .cons ⟨rfl, nofun, trivial⟩ htokens⟩
  | comma _ ih =>
    obtain ⟨us, hus, htokens⟩ := ih (apart not_isName_comma) (j + 1)
    rw [Text.lowerFrom_of_isApart (isApart_iff.2 not_isName_comma)]
    exact ⟨_, .comma hus, .cons ⟨rfl, nofun, trivial⟩ htokens⟩
  | @name i n cs ts hn hcs _ ih =>
    have hhead : ∀ d ∈ cs.head?, Text.isApart d = true := fun d hd => isApart_iff.2 (hcs d hd)
    have hbefore : ∀ b ∈ before.head?, Text.isApart b = true := by
      intro b hb
      refine isApart_iff.2 fun hname => ?_
      cases n with
      | nil => exact hn.ne_nil rfl
      | cons c n =>
        have hc := (isName_iff.1 hn).2 c (List.mem_cons_self ..)
        exact hseam b hb c rfl ⟨hname, isApart_eq_false_iff.1 hc⟩
    have hlower : Text.lowerFrom before n = Text.lowerFrom [] n :=
      Text.lowerFrom_before hbefore []
    have hrest : ∀ b ∈ (n.reverse ++ before).head?, ∀ d ∈ cs.head?,
        ¬(IsName [b] ∧ IsName [d]) := fun b _ d hd hbd => hcs d hd hbd.2
    obtain ⟨us, hus, htokens⟩ := ih hrest (j + (Text.lowerFrom [] n).length)
    rw [Text.lowerFrom_append hhead, hlower]
    refine ⟨_, .name (hn.lowerFrom []) (fun d hd => ?_) hus, .cons ⟨rfl, fun _ => ?_, trivial⟩ htokens⟩
    · cases cs with
      | nil => cases hd
      | cons c cs =>
        rw [Text.lowerFrom_of_isApart (hhead c rfl)] at hd
        obtain rfl : c = d := Option.some.inj hd
        exact hcs c rfl
    · show String.ofList (Text.lowerFrom [] n) = Text.lower (String.ofList n)
      rw [Text.lower, String.toList_ofList]

/-! ## The number of a token -/

/-- The token with the number `k` begins at the index. -/
def BeginsAt (text : String) (k : Nat) (index : Int) : Prop :=
  ∃ t, (tokenize text)[k]? = some t ∧ index = t.index

theorem BeginsAt.unique {text : String} {j k : Nat} {index : Int} (hj : BeginsAt text j index)
    (hk : BeginsAt text k index) : j = k := by
  obtain ⟨t, ht, rfl⟩ := hj
  obtain ⟨u, hu, htu⟩ := hk
  obtain ⟨hj, rfl⟩ := List.getElem?_eq_some_iff.1 ht
  obtain ⟨hk, rfl⟩ := List.getElem?_eq_some_iff.1 hu
  have hpairwise := List.pairwise_iff_getElem.1 (pairwise_tokenize text)
  rcases Nat.lt_trichotomy j k with h | h | h
  · have := hpairwise j k hj hk h
    omega
  · exact h
  · have := hpairwise k j hk hj h
    omega

theorem forall₂_number {α β : Type} {P : α → β → Prop} {as : List α} {bs : List β}
    (h : List.Forall₂ P as bs) :
    List.Forall₂ (fun a b => P a b ∧ ∃ k : Nat, as[k]? = some a ∧ bs[k]? = some b) as bs := by
  rw [List.forall₂_iff_get] at h ⊢
  exact ⟨h.1, fun k hk hk' =>
    ⟨h.2 k hk hk', k, List.getElem?_eq_getElem hk, List.getElem?_eq_getElem hk'⟩⟩

/-- Tokens with the same number begin at the two indices. -/
def SameNumber (text text' : String) (i j : Nat) : Prop :=
  ∃ k, BeginsAt text k i ∧ BeginsAt text' k j

/-! ## Parsing -/

theorem beginsAt_of_getElem?_scan {text : String} {k : Nat} {t : Token}
    (h : (Token.scan 0 text.toList)[k]? = some t) : BeginsAt text k t.index := by
  obtain ⟨hk, -⟩ := List.getElem?_eq_some_iff.1 h
  exact ⟨t, by rwa [tokenize, List.getElem?_append_left hk], rfl⟩

theorem beginsAt_finish (text : String) :
    BeginsAt text (Token.scan 0 text.toList).length text.length :=
  ⟨_, List.getElem?_concat_length, rfl⟩

theorem parse_lower (text : String) :
    ParseRenames Text.lower (SameNumber text (Text.lower text)) text (Text.lower text)
      (TypeExpr.parse text) (TypeExpr.parse (Text.lower text)) := by
  have hseam : ∀ b ∈ ([] : List Char).head?, ∀ c ∈ text.toList.head?,
      ¬(IsName [b] ∧ IsName [c]) := nofun
  obtain ⟨us, hus, htokens⟩ := lexed_lowerFrom (Token.lexed_scan 0 text.toList) hseam 0
  rw [← Text.toList_lower] at hus
  obtain rfl := Token.lexed_iff.1 hus
  have hfinish := beginsAt_finish (Text.lower text)
  rw [← htokens.length_eq] at hfinish
  refine parse_renames ⟨_, beginsAt_finish text, hfinish⟩ ?_
  refine (forall₂_number htokens).imp fun t u h => ⟨h.1.kind, h.1.text, ?_⟩
  obtain ⟨-, k, ht, hu⟩ := h
  exact ⟨k, beginsAt_of_getElem?_scan ht, beginsAt_of_getElem?_scan hu⟩

theorem lowered_lowered (e : TypeExpr) : e.lowered.lowered = e.lowered := by
  simp only [lowered_eq_mapNames, mapNames_mapNames, Text.lower_lower]

/-- Lowering the names of a parsed expression is parsing the text in lower case. Where the one
fails the other fails with the same fault, at the token with the same number. -/
theorem parseCaseless_agrees_parse_lower (text : String) :
    (∀ e, TypeExpr.parseCaseless text = .ok e ↔ TypeExpr.parse (Text.lower text) = .ok e) ∧
    (∀ e, TypeExpr.parseCaseless text = .ok e → e.lowered = e) ∧
    (∀ err, TypeExpr.parseCaseless text = .error err →
      ∃ err', TypeExpr.parse (Text.lower text) = .error err' ∧ err'.fault = err.fault ∧
        ∃ k, ∀ j, (BeginsAt text j err.index ↔ j = k) ∧
          (BeginsAt (Text.lower text) j err'.index ↔ j = k)) := by
  have hparse := parse_lower text
  unfold TypeExpr.parseCaseless
  generalize TypeExpr.parse text = answer at hparse ⊢
  generalize TypeExpr.parse (Text.lower text) = answer' at hparse ⊢
  cases hparse with
  | ok e =>
    rw [← lowered_eq_mapNames]
    refine ⟨fun _ => Iff.rfl, fun e' he' => ?_, nofun⟩
    cases he'
    exact lowered_lowered e
  | error fault hij =>
    obtain ⟨k, hi, hj⟩ := hij
    refine ⟨fun _ => ⟨nofun, nofun⟩, nofun, fun err herr => ?_⟩
    cases herr
    refine ⟨_, rfl, rfl, k, fun j => ⟨⟨fun h => h.unique hi, ?_⟩, ⟨fun h => h.unique hj, ?_⟩⟩⟩
    · rintro rfl
      exact hi
    · rintro rfl
      exact hj

end HierarchyLint
