import HierarchyLint.Proofs.Expr.Cursor
import HierarchyLint.Proofs.Expr.Faults

/-!
# Calls on one parser

A parser may be called again after every answer, also in the middle of an expression and after a
failure. `Proceeds` says how a call goes on from the current token: which answer it gives, and which
token is then the current one. The tokens that a parser has consumed are always a beginning of those
of the text (`Consumed`), and each call consumes some more of them or none. Main statement: after
any calls whatever the next call proceeds so, and the machine that holds a current token and gets
the others one by one does the same.
-/

namespace HierarchyLint

open TypeExpr

def Parser.after (p : Parser) (calls : List Call) : Parser :=
  calls.foldl (fun p call => (p.call call).2) p

def Cursor.after (c : Cursor) (calls : List Call) : Cursor :=
  calls.foldl (fun c call => (c.call call).2) c

/-- The current token is the one at place `i` among those of the text, and all behind it are
still to come. -/
structure Cursor.StandsAt (c : Cursor) (text : String) (i : Nat) : Prop where
  text_eq : c.text = text
  current : (tokenize text)[i]? = some c.current
  pending : c.pending = (tokenize text).drop (i + 1)

/-- The tokens from place `i` up to place `j` derive from the expression, and no longer run of
tokens from `i` on derives from any. -/
structure LongestRun (ts : List Token) (i j : Nat) (e : TypeExpr) : Prop where
  derives : Derives (ts.extract i j) e
  longest : ∀ k f, j < k → k ≤ ts.length → ¬ Derives (ts.extract i k) f

/-- The error is about the token: about the one that marks the end if a list is still open, and
otherwise about the one at the index of the error. -/
def ParseError.Blames (err : ParseError) (t : Token) : Prop :=
  (err.fault = .leftBracket ∧ t.kind = .finish) ∨
    (err.fault ∈ [ParseFault.missingName, .rightBracket, .extraCharacters] ∧ err.index = t.index)

/-- What a call does at the token at place `i` of the text: its answer, and the place of the token
that is then the current one. Reading one expression fails only if a left bracket follows every one
that begins there, and reading the rest of the text only if it is no expression. -/
inductive Proceeds (text : String) (i : Nat) : Call → Except Halt Answer → Nat → Prop where
  | token {t : Token} : (tokenize text)[i]? = some t → t.kind ≠ .finish →
      Proceeds text i (.take t.kind) (.ok (.token t)) (i + 1)
  | finish {t : Token} : (tokenize text)[i]? = some t → t.kind = .finish →
      Proceeds text i (.take .finish) (.ok (.token t)) i
  | mismatch {t : Token} {kind : TokenKind} : (tokenize text)[i]? = some t → t.kind ≠ kind →
      Proceeds text i (.take kind) (.error (.mismatch ⟨kind, t.kind⟩)) i
  | typeExpr {e : TypeExpr} {j : Nat} : LongestRun (tokenize text) i j e →
      Proceeds text i .typeExpr (.ok (.expr e)) j
  | parse {e : TypeExpr} {t : Token} {j : Nat} : LongestRun (tokenize text) i j e →
      (tokenize text)[j]? = some t → t.kind = .finish →
      Proceeds text i .parse (.ok (.expr e)) j
  | typeExpr_error {err : ParseError} {t : Token} {j : Nat} :
      err.text = text → (tokenize text)[j]? = some t → err.Blames t →
      (∀ k f, k ≤ (tokenize text).length → Derives ((tokenize text).extract i k) f →
        ∃ b, (tokenize text)[k]? = some b ∧ b.kind = .leftBracket) →
      Proceeds text i .typeExpr (.error (.failure err)) j
  | parse_error {err : ParseError} {t : Token} {j : Nat} :
      err.text = text → (tokenize text)[j]? = some t → err.Blames t →
      (∀ f, ¬ Derives ((tokenize text).drop i).dropLast f) →
      Proceeds text i .parse (.error (.failure err)) j

/-! ## Reading, wherever it begins -/

section
variable {size : Nat} {st : ReadState} {lists : List OpenList} {ts us rest : List Token}
  {e : TypeExpr}

theorem rest_suffix_readExpr (size : Nat) (st : ReadState) (lists : List OpenList)
    (ts : List Token) : (readExpr size st lists ts).2 <:+ ts := by
  fun_induction readExpr size st lists ts with
  | case1 | case2 | case4 | case5 | case6 | case8 | case11 => exact List.suffix_rfl
  | case3 _ t ts _ ih | case7 _ _ _ t ts _ ih | case9 _ _ t ts _ _ _ _ ih
  | case10 _ _ t ts _ _ _ _ _ ih => exact ih.trans (List.suffix_cons t ts)

/-- Reading fails at the end of the tokens if a list is open, and else at the token it blames. -/
theorem fault_of_readExpr {f : ReadFailure} (h : readExpr size st lists ts = (.error f, rest)) :
    (f.fault = .leftBracket ∧ rest = []) ∨
      (f.fault ∈ [ParseFault.missingName, .extraCharacters] ∧
        f.index = (rest.headD (Token.finish size)).index) := by
  fun_induction readExpr size st lists ts with
  | case1 =>
    cases h
    exact .inr ⟨by simp, rfl⟩
  | case2 | case6 =>
    cases h
    exact .inl ⟨rfl, rfl⟩
  | case4 | case11 =>
    cases h
    exact .inr ⟨by simp, rfl⟩
  | case5 | case8 => cases h
  | case3 _ _ _ _ ih | case7 _ _ _ _ _ _ ih | case9 _ _ _ _ _ _ _ _ ih
  | case10 _ _ _ _ _ _ _ _ _ ih => exact ih h

/-- Reading does not stop in front of the end of an expression. -/
theorem rest_suffix_of_derives (size : Nat) (rest : List Token) (h : Derives us e) :
    (readExpr size .needsName [] (us ++ rest)).2 <:+ rest := by
  rw [h.readExpr_append]
  apply rest_suffix_readExpr

end

section
variable {text : String} {done ts rest : List Token} {e : TypeExpr} {k size n : Nat}

theorem extract_append (done ts : List Token) (k : Nat) :
    (done ++ ts).extract done.length k = ts.take (k - done.length) := by
  unfold List.extract
  rw [List.drop_left]

theorem not_derives_concat_finish : ¬ Derives (ts ++ [Token.finish n]) e := by
  intro h
  obtain ⟨t, ht, hk⟩ := h.exists_getLast?
  obtain rfl := Option.some.inj (List.getLast?_concat.symm.trans ht)
  rcases hk with hk | hk <;> cases hk

/-- A run of tokens that derives from an expression ends in front of the end of the text. -/
theorem exists_of_derives_extract (htokens : tokenize text = done ++ (ts ++ [Token.finish n]))
    (hk : k ≤ (tokenize text).length) (h : Derives ((tokenize text).extract done.length k) e) :
    ∃ us more, ts = us ++ more ∧ k = (done ++ us).length ∧ Derives us e := by
  have hbound : k ≤ done.length + (ts.length + 1) := by
    rwa [htokens, List.length_append, List.length_append, List.length_singleton] at hk
  rw [htokens, extract_append] at h
  rcases Nat.lt_or_ge ts.length (k - done.length) with hlt | hge
  · rw [List.take_of_length_le (by simp; omega)] at h
    exact absurd h not_derives_concat_finish
  · rw [List.take_append_of_le_length hge] at h
    refine ⟨_, _, (List.take_append_drop (k - done.length) ts).symm, ?_, h⟩
    have hpos : (ts.take (k - done.length)).length ≠ 0 := by
      obtain ⟨t, ht, -⟩ := h.exists_getLast?
      intro hzero
      rw [List.length_eq_zero_iff.1 hzero] at ht
      cases ht
    rw [List.length_take] at hpos
    rw [List.length_append, List.length_take]
    omega

theorem longestRun_of_readExpr (htokens : tokenize text = done ++ (ts ++ [Token.finish n]))
    (h : readExpr size .needsName [] ts = (.ok e, rest)) :
    ∃ used, ts = used ++ rest ∧ LongestRun (tokenize text) done.length (done ++ used).length e := by
  have start : Reads .needsName [] [] := ReadsLists.nil
  obtain ⟨used, hts, hd⟩ := derives_of_readExpr start h
  refine ⟨used, hts, ?_, ?_⟩
  · have hlength : (done ++ used).length - done.length = used.length := by simp
    rw [htokens, extract_append, hlength, hts, List.append_assoc, List.take_left]
    exact hd
  · intro k f hlonger hk hf
    obtain ⟨us, more, hmore, rfl, hus⟩ := exists_of_derives_extract htokens hk hf
    have hrest : rest <:+ more := by
      have := rest_suffix_of_derives size more hus
      rwa [← hmore, h] at this
    have hlength := congrArg List.length (hts.symm.trans hmore)
    rw [List.length_append, List.length_append] at hlength hlonger
    have hle := hrest.length_le
    omega

/-- Where reading fails, a left bracket follows every expression that begins there. -/
theorem leftBracket_of_readExpr_error {f : ReadFailure}
    (htokens : tokenize text = done ++ (ts ++ [Token.finish n]))
    (h : readExpr size .needsName [] ts = (.error f, rest)) (hk : k ≤ (tokenize text).length)
    (he : Derives ((tokenize text).extract done.length k) e) :
    ∃ b, (tokenize text)[k]? = some b ∧ b.kind = .leftBracket := by
  obtain ⟨us, more, rfl, rfl, hus⟩ := exists_of_derives_extract htokens hk he
  rw [hus.readExpr_append] at h
  cases more with
  | nil => cases h
  | cons b more =>
    have hb : b.kind = .leftBracket := by
      apply Decidable.byContradiction
      intro hb
      have hread : readExpr size (.hasExpr e e.params.isEmpty) [] (b :: more)
          = (.ok e, b :: more) := by
        simp [readExpr, hb]
      rw [hread] at h
      cases h
    have hplace : tokenize text = done ++ us ++ b :: (more ++ [Token.finish n]) := by
      simp [htokens]
    exact ⟨b, by rw [hplace, List.getElem?_append_right (Nat.le_refl _), Nat.sub_self]; rfl, hb⟩

end

/-! ## The tokens consumed -/

namespace Parser

/-- The tokens consumed and those that are left are the tokens of the text. -/
structure Consumed (p : Parser) (text : String) (done : List Token) : Prop where
  text_eq : p.text = text
  scan_eq : Token.scan 0 text.toList = done ++ p.rest

variable {p : Parser} {text : String} {done : List Token}

theorem current_of_rest_nil (h : p.rest = []) : p.current = Token.finish p.text.length := by
  unfold current
  rw [h]
  rfl

theorem current_of_rest_cons {t : Token} {ts : List Token} (h : p.rest = t :: ts) :
    p.current = t := by
  unfold current
  rw [h]
  rfl

/-- Every error but that of an open list is about the current token if it has its index. -/
theorem blames_current {fault : ParseFault}
    (h : fault ∈ [ParseFault.missingName, .rightBracket, .extraCharacters]) :
    (p.error ⟨fault, p.current.index⟩).Blames p.current := .inr ⟨h, rfl⟩

/-- All that is left is an expression: then reading a whole text has an answer. -/
theorem parse_of_derives {e : TypeExpr} (h : Derives p.rest e) :
    p.parse = (.ok e, { p with rest := [] }) := by
  have htype : p.typeExpr = (.ok e, { p with rest := [] }) := by
    unfold typeExpr
    rw [h.readExpr_eq]
    rfl
  unfold parse
  rw [htype]
  rfl

theorem consumed_ofText (text : String) : (ofText text).Consumed text [] := ⟨rfl, rfl⟩

namespace Consumed

theorem tokenize_eq (h : p.Consumed text done) :
    tokenize text = done ++ (p.rest ++ [Token.finish text.length]) := by
  unfold tokenize
  rw [h.scan_eq, List.append_assoc]

theorem kind_ne_finish (h : p.Consumed text done) : ∀ t ∈ p.rest, t.kind ≠ .finish := by
  have hkinds := (Token.lexed_scan 0 text.toList).kind_ne_finish
  rw [h.scan_eq] at hkinds
  exact fun t ht => hkinds t (List.mem_append_right done ht)

theorem getElem?_length (h : p.Consumed text done) :
    (tokenize text)[done.length]? = some p.current := by
  rw [h.tokenize_eq, List.getElem?_append_right (Nat.le_refl _), Nat.sub_self]
  unfold current
  rw [h.text_eq]
  cases p.rest <;> rfl

theorem standsAt (h : p.Consumed text done) : p.cursor.StandsAt text done.length where
  text_eq := h.text_eq
  current := h.getElem?_length
  pending := by
    rw [h.tokenize_eq, List.drop_append, ← h.text_eq]
    simp [cursor, Cursor.facing]

theorem eq_nil_of_finish {p' : Parser} {used : List Token} (h : p.Consumed text done)
    (h' : p'.Consumed text (done ++ used)) (hk : p.current.kind = .finish) : used = [] := by
  have hrest : p.rest = used ++ p'.rest := by
    have hscan := h.scan_eq.symm.trans h'.scan_eq
    rw [List.append_assoc] at hscan
    exact List.append_cancel_left hscan
  cases hp : p.rest with
  | nil =>
    rw [hp] at hrest
    exact (List.append_eq_nil_iff.1 hrest.symm).1
  | cons t ts =>
    rw [current_of_rest_cons hp] at hk
    exact absurd hk (h.kind_ne_finish t (by rw [hp]; exact List.mem_cons_self ..))

/-! ## One call -/

theorem take (h : p.Consumed text done) (kind : TokenKind) :
    ∃ used, (p.take kind).2.Consumed text (done ++ used) ∧
      Proceeds text done.length (.take kind) (p.call (.take kind)).1 (done ++ used).length := by
  unfold call
  by_cases hk : p.current.kind = kind
  · have htake : p.take kind = (.ok p.current, { p with rest := p.rest.tail }) := if_pos hk
    dsimp only
    rw [htake]
    subst hk
    cases hp : p.rest with
    | nil =>
      have hfinish : p.current.kind = .finish := by
        rw [current_of_rest_nil hp]
        rfl
      refine ⟨[], ⟨h.text_eq, ?_⟩, ?_⟩
      · rw [List.tail_nil, List.append_nil, ← hp]
        exact h.scan_eq
      · rw [List.append_nil, hfinish]
        exact .finish h.getElem?_length hfinish
    | cons t ts =>
      have hne : p.current.kind ≠ .finish := by
        rw [current_of_rest_cons hp]
        exact h.kind_ne_finish t (by rw [hp]; exact List.mem_cons_self ..)
      refine ⟨[t], ⟨h.text_eq, ?_⟩, ?_⟩
      · rw [h.scan_eq, hp, List.append_assoc]
        rfl
      · rw [List.length_append]
        exact .token h.getElem?_length hne
  · have htake : p.take kind = (.error ⟨kind, p.current.kind⟩, p) := if_neg hk
    dsimp only
    rw [htake]
    refine ⟨[], ⟨h.text_eq, ?_⟩, ?_⟩
    · rw [List.append_nil, h.scan_eq]
    · rw [List.append_nil]
      exact .mismatch h.getElem?_length hk

/-- Reading one expression consumes a longest run, or fails at the token it blames. -/
theorem typeExpr (h : p.Consumed text done) :
    ∃ used, p.typeExpr.2.Consumed text (done ++ used) ∧
      (∀ e, p.typeExpr.1 = .ok e →
        LongestRun (tokenize text) done.length (done ++ used).length e) ∧
      ∀ err, p.typeExpr.1 = .error err →
        (err.text = text ∧ err.Blames p.typeExpr.2.current) ∧
        ∀ k f, k ≤ (tokenize text).length → Derives ((tokenize text).extract done.length k) f →
          ∃ b, (tokenize text)[k]? = some b ∧ b.kind = .leftBracket := by
  unfold Parser.typeExpr
  rcases hread : readExpr p.text.length .needsName [] p.rest with ⟨f | e, rest⟩
  · obtain ⟨used, hused⟩ : rest <:+ p.rest := by
      have := rest_suffix_readExpr p.text.length .needsName [] p.rest
      rwa [hread] at this
    refine ⟨used, ⟨h.text_eq, ?_⟩, nofun, ?_⟩
    · rw [h.scan_eq, ← hused, List.append_assoc]
    · rintro err herr
      cases herr
      refine ⟨⟨h.text_eq, ?_⟩, ?_⟩
      · rcases fault_of_readExpr hread with ⟨hf, rfl⟩ | ⟨hf, hi⟩
        · exact .inl ⟨hf, rfl⟩
        · refine .inr ⟨?_, congrArg Int.ofNat hi⟩
          have hfault : (p.error f).fault = f.fault := rfl
          rw [hfault]
          rcases List.mem_cons.1 hf with hf | hf
          · simp [hf]
          · simp [List.mem_singleton.1 hf]
      · intro k g hk hg
        exact leftBracket_of_readExpr_error h.tokenize_eq hread hk hg
  · obtain ⟨used, hused, hrun⟩ := longestRun_of_readExpr h.tokenize_eq hread
    refine ⟨used, ⟨h.text_eq, ?_⟩, ?_, nofun⟩
    · rw [h.scan_eq, hused, List.append_assoc]
    · rintro f hf
      cases hf
      exact hrun

/-- Reading a whole text stops where reading one expression does. -/
theorem parse (h : p.Consumed text done) :
    ∃ used, p.parse.2.Consumed text (done ++ used) ∧
      (∀ e, p.parse.1 = .ok e →
        LongestRun (tokenize text) done.length (done ++ used).length e ∧
          p.parse.2.current.kind = .finish) ∧
      ∀ err, p.parse.1 = .error err → err.text = text ∧ err.Blames p.parse.2.current := by
  obtain ⟨used, hdone, hok, herror⟩ := h.typeExpr
  refine ⟨used, ?_⟩
  unfold Parser.parse
  rcases htype : p.typeExpr with ⟨f | e, p'⟩
  · rw [htype] at hdone herror
    refine ⟨hdone, nofun, ?_⟩
    rintro err herr
    cases herr
    exact (herror f rfl).1
  · rw [htype] at hdone hok
    have hrun := hok e rfl
    dsimp only
    split
    · rename_i hk
      refine ⟨hdone, ?_, nofun⟩
      rintro f hf
      cases hf
      exact ⟨hrun, hk⟩
    · refine ⟨hdone, nofun, ?_⟩
      rintro err herr
      cases herr
      exact ⟨hdone.text_eq, blames_current (by simp)⟩
    · refine ⟨hdone, nofun, ?_⟩
      rintro err herr
      cases herr
      exact ⟨hdone.text_eq, blames_current (by simp)⟩

theorem dropLast_drop (h : p.Consumed text done) :
    ((tokenize text).drop done.length).dropLast = p.rest := by
  rw [h.tokenize_eq, List.drop_left, List.dropLast_concat]

/-- A call consumes some more tokens or none. -/
theorem call (h : p.Consumed text done) (call : Call) :
    ∃ used, (p.call call).2.Consumed text (done ++ used) ∧
      Proceeds text done.length call (p.call call).1 (done ++ used).length := by
  cases call with
  | take kind =>
    obtain ⟨used, hdone, hproceeds⟩ := h.take kind
    exact ⟨used, hdone, hproceeds⟩
  | typeExpr =>
    obtain ⟨used, hdone, hok, herror⟩ := h.typeExpr
    refine ⟨used, hdone, ?_⟩
    unfold Parser.call
    rcases htype : p.typeExpr with ⟨err | e, p'⟩
    · rw [htype] at hdone herror
      obtain ⟨⟨htext, hblames⟩, hbracket⟩ := herror err rfl
      exact .typeExpr_error htext hdone.getElem?_length hblames hbracket
    · rw [htype] at hok
      exact .typeExpr (hok e rfl)
  | parse =>
    obtain ⟨used, hdone, hok, herror⟩ := h.parse
    refine ⟨used, hdone, ?_⟩
    unfold Parser.call
    rcases hparse : p.parse with ⟨err | e, p'⟩
    · rw [hparse] at hdone herror
      obtain ⟨htext, hblames⟩ := herror err rfl
      refine .parse_error htext hdone.getElem?_length hblames ?_
      intro f hf
      rw [h.dropLast_drop] at hf
      rw [parse_of_derives hf] at hparse
      cases hparse
    · rw [hparse] at hdone hok
      obtain ⟨hrun, hk⟩ := hok e rfl
      exact .parse hrun hdone.getElem?_length hk

/-! ## Call after call -/

theorem after (h : p.Consumed text done) (calls : List Call) :
    ∃ used, (p.after calls).Consumed text (done ++ used) := by
  induction calls generalizing p done with
  | nil => exact ⟨[], by rwa [List.append_nil]⟩
  | cons call calls ih =>
    obtain ⟨used, hdone, -⟩ := h.call call
    obtain ⟨more, hmore⟩ := ih hdone
    exact ⟨used ++ more, by rwa [← List.append_assoc]⟩

theorem cursor_after (h : p.Consumed text done) (calls : List Call) :
    p.cursor.after calls = (p.after calls).cursor := by
  induction calls generalizing p done with
  | nil => rfl
  | cons call calls ih =>
    obtain ⟨used, hdone, -⟩ := h.call call
    have hcall := cursor_call h.kind_ne_finish call
    show Cursor.after (p.cursor.call call).2 calls = _
    rw [hcall]
    exact ih hdone

end Consumed

end Parser

theorem Parser.exists_consumed (text : String) (calls : List Call) :
    ∃ done, ((ofText text).after calls).Consumed text done := by
  obtain ⟨used, h⟩ := (consumed_ofText text).after calls
  exact ⟨_, h⟩

theorem Parser.after_append (p : Parser) (calls more : List Call) :
    p.after (calls ++ more) = (p.after calls).after more :=
  List.foldl_append

/-- The machine that holds one token and gets the next ones gives every answer that the parser
gives, and both have the same token as the current one, in every sequence of calls. That token
never stands in front of an earlier one, and once it is the end of the text it stays that. -/
theorem calls_proceed (text : String) :
    (∀ calls, (Cursor.ofText text).after calls = ((Parser.ofText text).after calls).cursor) ∧
    (∀ calls call, (((Cursor.ofText text).after calls).call call).1
      = (((Parser.ofText text).after calls).call call).1) ∧
    (∀ calls more, ∃ i j, ((Parser.ofText text).after calls).cursor.StandsAt text i ∧
      ((Parser.ofText text).after (calls ++ more)).cursor.StandsAt text j ∧ i ≤ j ∧
      (((Parser.ofText text).after calls).current.kind = .finish → j = i)) ∧
    ∀ calls call, ∃ i j, ((Parser.ofText text).after calls).cursor.StandsAt text i ∧
      ((Parser.ofText text).after (calls ++ [call])).cursor.StandsAt text j ∧
      Proceeds text i call (((Parser.ofText text).after calls).call call).1 j := by
  have hafter (calls : List Call) :
      (Cursor.ofText text).after calls = ((Parser.ofText text).after calls).cursor := by
    rw [← Parser.cursor_ofText]
    exact (Parser.consumed_ofText text).cursor_after calls
  refine ⟨hafter, ?_, ?_, ?_⟩
  · intro calls call
    obtain ⟨done, hdone⟩ := Parser.exists_consumed text calls
    rw [hafter, Parser.cursor_call hdone.kind_ne_finish]
  · intro calls more
    obtain ⟨done, hdone⟩ := Parser.exists_consumed text calls
    obtain ⟨used, hmore⟩ := hdone.after more
    rw [Parser.after_append]
    refine ⟨_, _, hdone.standsAt, hmore.standsAt, ?_, ?_⟩
    · rw [List.length_append]
      exact Nat.le_add_right ..
    · intro hfinish
      rw [hdone.eq_nil_of_finish hmore hfinish, List.append_nil]
  · intro calls call
    obtain ⟨done, hdone⟩ := Parser.exists_consumed text calls
    obtain ⟨used, hcall, hproceeds⟩ := hdone.call call
    rw [Parser.after_append]
    exact ⟨_, _, hdone.standsAt, hcall.standsAt, hproceeds⟩

end HierarchyLint
