import HierarchyLint.Expr.Parser
import HierarchyLint.Proofs.Expr.Grammar

/-!
# Reading follows the grammar

`Reads st lists done` is the invariant of `readExpr`: the tokens `done` that it has consumed are
the beginning of a derivation of which `lists` are the open lists and `st` is the place reached.
One lemma for each kind of token says how the invariant goes on, so an answer is derived from the
tokens consumed (`derives_of_readExpr`). Conversely `readExpr` runs along every derivation
(`Derives.readExpr_append`), whatever lists are open around it. Main statement: a text parses as
an expression exactly if it spells it.
-/

namespace HierarchyLint

open TypeExpr

/-! ## One token -/

section
variable {size : Nat} {t : Token} {ts : List Token} {l : OpenList} {lists : List OpenList}
  {e : TypeExpr} {bare : Bool}

theorem readExpr_name (h : t.kind = .name) :
    readExpr size .needsName lists (t :: ts)
      = readExpr size (.hasExpr (leaf t.text) true) lists ts := by
  cases lists <;> simp [readExpr, h]

theorem readExpr_leftBracket (h : t.kind = .leftBracket) :
    readExpr size (.hasExpr e true) lists (t :: ts)
      = readExpr size .needsName (⟨e.name, t.index, []⟩ :: lists) ts := by
  cases lists <;> simp [readExpr, h]

theorem readExpr_comma (h : t.kind = .comma) :
    readExpr size (.hasExpr e bare) (l :: lists) (t :: ts)
      = readExpr size .needsName (l.add e :: lists) ts := by
  simp [readExpr, h]

theorem readExpr_rightBracket (h : t.kind = .rightBracket) :
    readExpr size (.hasExpr e bare) (l :: lists) (t :: ts)
      = readExpr size (.hasExpr (l.add e).close false) lists ts := by
  simp [readExpr, h]

end

/-! ## Completeness -/

namespace TypeExpr

mutual

/-- Reading goes from the front of a derivation to its end. -/
theorem Derives.readExpr_append {us : List Token} {e : TypeExpr} (h : Derives us e) (size : Nat)
    (lists : List OpenList) (ts : List Token) :
    readExpr size .needsName lists (us ++ ts)
      = readExpr size (.hasExpr e e.params.isEmpty) lists ts := by
  cases h with
  | bare ht => exact readExpr_name ht
  | @list t l r us es ht hl hr hes =>
    rw [List.cons_append, readExpr_name ht, List.cons_append, readExpr_leftBracket hl,
      List.append_assoc, List.singleton_append, hes.readExpr_append size _ lists hr ts]
    -- a list has at least one parameter, so no second list can follow
    cases hes <;> rfl

/-- Reading goes from the front of a list to the bracket that closes it. -/
theorem DerivesList.readExpr_append {us : List Token} {es : List TypeExpr} (h : DerivesList us es)
    (size : Nat) (l : OpenList) (lists : List OpenList) {r : Token} (hr : r.kind = .rightBracket)
    (ts : List Token) :
    readExpr size .needsName (l :: lists) (us ++ r :: ts)
      = readExpr size (.hasExpr (node l.name (l.params.reverse ++ es)) false) lists ts := by
  cases h with
  | one he =>
    rw [he.readExpr_append size (l :: lists) (r :: ts), readExpr_rightBracket hr]
    simp [OpenList.close, OpenList.add]
  | @more us vs c e es he hc hes =>
    rw [List.append_assoc, he.readExpr_append size (l :: lists), List.cons_append,
      readExpr_comma hc, hes.readExpr_append size (l.add e) lists hr ts]
    simp [OpenList.add]

end

theorem Derives.readExpr_eq {us : List Token} {e : TypeExpr} (h : Derives us e) (size : Nat) :
    readExpr size .needsName [] us = (.ok e, []) := by
  have := h.readExpr_append size [] []
  rwa [List.append_nil, readExpr] at this

theorem Derives.unique {us : List Token} {e f : TypeExpr} (he : Derives us e)
    (hf : Derives us f) : e = f := by
  have h := (he.readExpr_eq 0).symm.trans (hf.readExpr_eq 0)
  simpa using h

end TypeExpr

/-! ## The invariant -/

/-- The tokens are the expressions, latest first, each with a comma behind it. -/
inductive ReadsParams : List TypeExpr → List Token → Prop where
  | nil : ReadsParams [] []
  | cons {e : TypeExpr} {es : List TypeExpr} {c : Token} {ts us : List Token} :
      ReadsParams es ts → Derives us e → c.kind = .comma →
      ReadsParams (e :: es) (ts ++ us ++ [c])

/-- The tokens lead into the open lists, innermost first. -/
inductive ReadsLists : List OpenList → List Token → Prop where
  | nil : ReadsLists [] []
  | cons {l : OpenList} {lists : List OpenList} {t b : Token} {ts us : List Token} :
      ReadsLists lists ts → t.kind = .name → t.text = l.name → b.kind = .leftBracket →
      b.index = l.bracket → ReadsParams l.params us →
      ReadsLists (l :: lists) (ts ++ t :: b :: us)

/-- The tokens that `readExpr` has consumed when it is in the given state. -/
def Reads : ReadState → List OpenList → List Token → Prop
  | .needsName, lists, done => ReadsLists lists done
  | .hasExpr e bare, lists, done => ∃ ts us, done = ts ++ us ∧ ReadsLists lists ts ∧
      Derives us e ∧ (bare = true → ∃ t, us = [t])

theorem ReadsParams.derivesList {es fs : List TypeExpr} {ts us : List Token}
    (h : ReadsParams es ts) (hfs : DerivesList us fs) :
    DerivesList (ts ++ us) (es.reverse ++ fs) := by
  induction h generalizing us fs with
  | nil => exact hfs
  | cons _ he hc ih =>
    have := ih (.more he hc hfs)
    simpa using this

section
variable {lists : List OpenList} {l : OpenList} {done : List Token} {t : Token} {e : TypeExpr}
  {bare : Bool}

theorem Reads.name (h : Reads .needsName lists done) (ht : t.kind = .name) :
    Reads (.hasExpr (leaf t.text) true) lists (done ++ [t]) :=
  ⟨done, [t], rfl, h, .bare ht, fun _ => ⟨t, rfl⟩⟩

theorem Reads.leftBracket (h : Reads (.hasExpr e true) lists done) (ht : t.kind = .leftBracket) :
    Reads .needsName (⟨e.name, t.index, []⟩ :: lists) (done ++ [t]) := by
  obtain ⟨ts, us, rfl, hl, hd, hb⟩ := h
  obtain ⟨n, rfl⟩ := hb rfl
  cases hd with
  | bare hn =>
    rw [List.append_assoc]
    exact .cons hl hn rfl ht rfl .nil

theorem Reads.comma (h : Reads (.hasExpr e bare) (l :: lists) done) (ht : t.kind = .comma) :
    Reads .needsName (l.add e :: lists) (done ++ [t]) := by
  obtain ⟨ts, us, rfl, hl, hd, -⟩ := h
  cases hl with
  | @cons _ _ n b ts vs hl hn hname hb hi hp =>
    have := ReadsLists.cons (l := l.add e) hl hn hname hb hi (.cons hp hd ht)
    simpa [Reads] using this

theorem Reads.rightBracket (h : Reads (.hasExpr e bare) (l :: lists) done)
    (ht : t.kind = .rightBracket) :
    Reads (.hasExpr (l.add e).close false) lists (done ++ [t]) := by
  obtain ⟨ts, us, rfl, hl, hd, -⟩ := h
  cases hl with
  | @cons _ _ n b ts vs hl hn hname hb hi hp =>
    refine ⟨ts, n :: b :: (vs ++ us ++ [t]), by simp, hl, ?_, fun h => nomatch h⟩
    have hes : DerivesList (vs ++ us) (l.params.reverse ++ [e]) := hp.derivesList (.one hd)
    have := Derives.list hn hb ht hes
    rw [hname] at this
    simpa [OpenList.close, OpenList.add] using this

end

/-! ## Soundness -/

/-- An answer is derived from what was consumed before and since. -/
theorem derives_of_readExpr {size : Nat} {st : ReadState} {lists : List OpenList}
    {done ts rest : List Token} {e : TypeExpr} (hst : Reads st lists done)
    (h : readExpr size st lists ts = (.ok e, rest)) :
    ∃ used, ts = used ++ rest ∧ Derives (done ++ used) e := by
  fun_induction readExpr size st lists ts generalizing done with
  | case1 | case2 | case4 | case6 | case11 => cases h
  | case3 lists t ts hk ih =>
    obtain ⟨used, rfl, hd⟩ := ih (hst.name hk) h
    exact ⟨t :: used, rfl, by simpa using hd⟩
  | case5 e bare =>
    cases h
    obtain ⟨us, vs, rfl, hl, hd, -⟩ := hst
    cases hl
    exact ⟨[], rfl, by simpa using hd⟩
  | case7 e bare lists t ts hk ih =>
    obtain ⟨rfl, hk⟩ := hk
    obtain ⟨used, rfl, hd⟩ := ih (hst.leftBracket hk) h
    exact ⟨t :: used, rfl, by simpa using hd⟩
  | case8 e bare t ts hk =>
    cases h
    obtain ⟨us, vs, rfl, hl, hd, -⟩ := hst
    cases hl
    exact ⟨[], rfl, by simpa using hd⟩
  | case9 e bare t ts hb l lists hk ih =>
    obtain ⟨used, rfl, hd⟩ := ih (hst.comma hk) h
    exact ⟨t :: used, rfl, by simpa using hd⟩
  | case10 e bare t ts hb l lists hc hk ih =>
    obtain ⟨used, rfl, hd⟩ := ih (hst.rightBracket hk) h
    exact ⟨t :: used, rfl, by simpa using hd⟩

theorem readExpr_eq_ok_iff (size : Nat) {ts : List Token} {e : TypeExpr} :
    readExpr size .needsName [] ts = (.ok e, []) ↔ Derives ts e := by
  constructor
  · intro h
    have start : Reads .needsName [] [] := ReadsLists.nil
    obtain ⟨used, rfl, hd⟩ := derives_of_readExpr start h
    simpa using hd
  · intro h
    exact h.readExpr_eq size

/-! ## Whole texts -/

theorem parse_eq_ok_iff_derives {text : String} {e : TypeExpr} :
    TypeExpr.parse text = .ok e ↔ Derives (Token.scan 0 text.toList) e := by
  have hkinds := (Token.lexed_scan 0 text.toList).kind_ne_finish
  rw [← readExpr_eq_ok_iff text.length]
  unfold TypeExpr.parse Parser.parse Parser.typeExpr Parser.ofText
  rcases hread : readExpr text.length .needsName [] (Token.scan 0 text.toList) with ⟨answer, rest⟩
  cases answer with
  | error f =>
    constructor
    · intro h
      cases h
    · intro h
      cases h
  | ok f =>
    cases rest with
    | nil =>
      constructor
      · intro h
        cases h
        rfl
      · intro h
        cases h
        rfl
    | cons t rest =>
      have start : Reads .needsName [] [] := ReadsLists.nil
      obtain ⟨used, hscan, -⟩ := derives_of_readExpr start hread
      have ht : t.kind ≠ .finish := hkinds t (by rw [hscan]; simp)
      have hmap (g : ReadFailure → ParseError) : (Except.ok f).mapError g = .ok f := rfl
      simp only [hmap, Parser.current, List.headD_cons]
      cases hk : t.kind <;> simp_all

theorem text_of_parse_eq_error {text : String} {err : ParseError}
    (h : TypeExpr.parse text = .error err) : err.text = text := by
  unfold TypeExpr.parse Parser.parse Parser.typeExpr Parser.ofText at h
  rcases hread : readExpr text.length .needsName [] (Token.scan 0 text.toList) with ⟨answer, rest⟩
  rw [hread] at h
  cases answer with
  | error f =>
    cases h
    rfl
  | ok f =>
    dsimp only [Except.mapError] at h
    split at h
    · cases h
    · cases h
      rfl
    · cases h
      rfl

theorem parse_eq_ok_iff_spells {text : String} {e : TypeExpr} :
    TypeExpr.parse text = .ok e ↔ Spells text e := by
  rw [parse_eq_ok_iff_derives]
  constructor
  · intro h
    exact ⟨_, Token.lexed_scan 0 text.toList, h⟩
  · rintro ⟨ts, hl, hd⟩
    rwa [Token.scan_of_lexed hl]

/-- Parsing and the grammar agree on every text: the tokens in front of the end of the text derive
from the one expression that parsing returns, and from none if it fails. All names in an answer are
names of the grammar. -/
theorem parse_iff_derives_tokens (text : String) :
    (∃ ts, tokenize text = ts ++ [Token.finish text.length] ∧ Token.Lexed 0 text.toList ts ∧
      ∀ e, TypeExpr.parse text = .ok e ↔ Derives ts e) ∧
    (∀ ts e f, Derives ts e → Derives ts f → e = f) ∧
    (∀ e, TypeExpr.parse text = .ok e → ∀ n, HasName e n → IsName n.toList) := by
  refine ⟨⟨Token.scan 0 text.toList, rfl, Token.lexed_scan 0 text.toList, ?_⟩, ?_, ?_⟩
  · intro e
    exact parse_eq_ok_iff_derives
  · intro ts e f he hf
    exact he.unique hf
  · intro e he n hn
    exact (parse_eq_ok_iff_spells.1 he).isName hn

end HierarchyLint
