import HierarchyLint.Proofs.Expr.Viable

/-!
# Which fault is found

The fault of a text is settled by its longest viable front and what stands at its end. `FaultAt`
says how: a text that is a beginning as a whole lacks a right bracket; otherwise the token in front
of the place tells whether a name is missing, and the character at the place tells a bracket that
closes nothing from other characters that are too many. No text has two faults
(`FaultAt.unique`), and parsing reports the one that a text has.
-/

namespace HierarchyLint

open TypeExpr

def tokenBefore? (text : String) (i : Nat) : Option Token :=
  ((tokenize text).filter fun t => t.index < i).getLast?

/-- The text has a token, and it can be completed to a type expression. -/
def IsBeginning (text : String) : Prop := Viable text ∧ Token.scan 0 text.toList ≠ []

/-- The text has the fault, where `i` is the length of its longest viable front. -/
inductive FaultAt (text : String) (i : Nat) : ParseFault → Prop where
  | leftBracket : IsBeginning text → FaultAt text i .leftBracket
  | missingName : ¬ IsBeginning text →
      (∀ t ∈ tokenBefore? text i, t.kind = .leftBracket ∨ t.kind = .comma) →
      FaultAt text i .missingName
  | rightBracket {t : Token} : ¬ IsBeginning text → t ∈ tokenBefore? text i →
      t.kind = .name ∨ t.kind = .rightBracket → text.toList[i]? = some ']' →
      FaultAt text i .rightBracket
  | extraCharacters {t : Token} : ¬ IsBeginning text → t ∈ tokenBefore? text i →
      t.kind = .name ∨ t.kind = .rightBracket → text.toList[i]? ≠ some ']' →
      FaultAt text i .extraCharacters

section
variable {text : String} {i : Nat} {t : Token} {done rest us : List Token} {e : TypeExpr}
  {bare : Bool} {lists : List OpenList} {fault fault' : ParseFault}

theorem FaultAt.unique (h : FaultAt text i fault) (h' : FaultAt text i fault') :
    fault = fault' := by
  have hkinds : ∀ {t : Token}, t.kind = .leftBracket ∨ t.kind = .comma →
      ¬ (t.kind = .name ∨ t.kind = .rightBracket) := by
    rintro t (ht | ht) <;> simp [ht]
  cases h with
  | leftBracket hb =>
    cases h' with
    | leftBracket => rfl
    | missingName hb' | rightBracket hb' | extraCharacters hb' => exact absurd hb hb'
  | missingName hb ht =>
    cases h' with
    | leftBracket hb' => exact absurd hb' hb
    | missingName => rfl
    | rightBracket _ hu hk | extraCharacters _ hu hk => exact absurd hk (hkinds (ht _ hu))
  | rightBracket hb ht hk hc =>
    cases h' with
    | leftBracket hb' => exact absurd hb' hb
    | missingName _ hu => exact absurd hk (hkinds (hu _ ht))
    | rightBracket => rfl
    | extraCharacters _ _ _ hc' => exact absurd hc hc'
  | extraCharacters hb ht hk hc =>
    cases h' with
    | leftBracket hb' => exact absurd hb' hb
    | missingName _ hu => exact absurd hk (hkinds (hu _ ht))
    | rightBracket _ _ _ hc' => exact absurd hc' hc
    | extraCharacters => rfl

theorem IsLongestViable.unique {i j : Nat} (hi : IsLongestViable text i)
    (hj : IsLongestViable text j) : i = j :=
  Nat.le_antisymm (hj.longest i hi.le_length hi.viable) (hi.longest j hj.le_length hj.viable)

/-! ## The last token -/

theorem TypeExpr.Derives.exists_getLast? {ts : List Token} (h : Derives ts e) :
    ∃ t ∈ ts.getLast?, t.kind = .name ∨ t.kind = .rightBracket := by
  cases h with
  | @bare t ht => exact ⟨t, rfl, .inl ht⟩
  | @list t l r ts es _ _ hr _ =>
    refine ⟨r, ?_, .inr hr⟩
    rw [← List.cons_append, ← List.cons_append]
    exact List.getLast?_concat

theorem ReadsParams.kind_getLast? {es : List TypeExpr} {ts : List Token} (h : ReadsParams es ts) :
    ∀ t ∈ ts.getLast?, t.kind = .comma := by
  intro t ht
  cases h with
  | nil => cases ht
  | cons _ _ hc =>
    obtain rfl := Option.some.inj (List.getLast?_concat.symm.trans ht)
    exact hc

theorem Reads.eq_nil (h : Reads .needsName [] done) : done = [] := by
  cases h
  rfl

/-- Where a name is needed, nothing stands in front or else a left bracket or a comma. -/
theorem Reads.kind_getLast? (h : Reads .needsName lists done) :
    ∀ t ∈ done.getLast?, t.kind = .leftBracket ∨ t.kind = .comma := by
  intro u hu
  cases h with
  | nil => cases hu
  | @cons l lists t b ts us _ _ _ hb _ hus =>
    have hlast : (ts ++ t :: b :: us).getLast? = (b :: us).getLast? := by
      rw [List.getLast?_append, List.getLast?_cons_cons, List.getLast?_cons]
      rfl
    rw [hlast, List.getLast?_cons, Option.mem_some] at hu
    cases hvs : us.getLast? with
    | none =>
      rw [hvs] at hu
      exact .inl (hu ▸ hb)
    | some c =>
      rw [hvs] at hu
      exact .inr (hu ▸ hus.kind_getLast? c hvs)

/-- Behind an expression there stands the name or the bracket that ends it. -/
theorem Reads.exists_getLast? (h : Reads (.hasExpr e bare) lists done) :
    ∃ t ∈ done.getLast?, t.kind = .name ∨ t.kind = .rightBracket := by
  obtain ⟨ts, us, rfl, -, hd, -⟩ := h
  obtain ⟨t, ht, hk⟩ := hd.exists_getLast?
  refine ⟨t, ?_, hk⟩
  rw [List.getLast?_append, Option.mem_def.1 ht]
  rfl

theorem tokenBefore?_eq (h : tokenize text = done ++ t :: us) :
    tokenBefore? text t.index = done.getLast? := by
  have hpairwise := pairwise_tokenize text
  rw [h, List.pairwise_append, List.pairwise_cons] at hpairwise
  obtain ⟨-, ⟨hus, -⟩, hdone⟩ := hpairwise
  have hbefore : done.filter (fun u => u.index < t.index) = done :=
    List.filter_eq_self.2 fun u hu => by simpa using hdone u hu t (List.mem_cons_self ..)
  have hbehind : (t :: us).filter (fun u => u.index < t.index) = [] := by
    refine List.filter_eq_nil_iff.2 fun u hu => ?_
    rcases List.mem_cons.1 hu with rfl | hu
    · simp
    · have := hus u hu
      simp only [decide_eq_true_eq]
      omega
  rw [tokenBefore?, h, List.filter_append, hbefore, hbehind, List.append_nil]

/-- The character at the place of a token settles its kind. -/
theorem Token.exists_getElem?_index {cs : List Char} (h : Token.scan 0 cs = done ++ t :: rest) :
    ∃ c, cs[t.index]? = some c ∧ t.kind = Token.kindOf c := by
  obtain ⟨as, bs, rfl, hcut⟩ := (h ▸ Token.lexed_scan 0 cs).cut
  obtain ⟨c, more, rfl, -, hk⟩ := hcut.back.exists_first rfl
  refine ⟨c, ?_, hk⟩
  rw [hcut.index, Nat.zero_add, List.getElem?_append_right (Nat.le_refl _), Nat.sub_self]
  rfl

theorem Token.kindOf_eq_rightBracket_iff {c : Char} :
    Token.kindOf c = .rightBracket ↔ c = ']' := by
  constructor
  · intro h
    unfold Token.kindOf at h
    cases hd : Token.delimiter? c with
    | none =>
      rw [hd] at h
      cases h
    | some kind =>
      rw [hd] at h
      cases h
      rcases Token.delimiter?_eq_some hd with ⟨-, hk⟩ | ⟨hc, -⟩ | ⟨-, hk⟩
      · cases hk
      · exact hc
      · cases hk
  · rintro rfl
    rfl

theorem getElem?_index_eq_rightBracket_iff
    (h : Token.scan 0 text.toList = done ++ t :: rest) :
    text.toList[t.index]? = some ']' ↔ t.kind = .rightBracket := by
  obtain ⟨c, hc, hk⟩ := Token.exists_getElem?_index h
  rw [hc, hk, Token.kindOf_eq_rightBracket_iff, Option.some_inj]

/-! ## Faults -/

theorem exists_faultAt_end {st : ReadState} {f : ReadFailure}
    (hscan : Token.scan 0 text.toList = done) (hover : ReadsOver .needsName [] done st lists)
    (hreads : Reads st lists done) (hend : Ends text.length st lists [] (.error f)) :
    IsLongestViable text text.length ∧ FaultAt text text.length f.fault ∧
      f.fault ≠ .rightBracket ∧ f.fault ≠ .extraCharacters := by
  subst hscan
  have hviable : Viable text := viable_of_readsOver hover
  refine ⟨isLongestViable_length hviable, ?_⟩
  cases hend with
  | empty =>
    have hnil : Token.scan 0 text.toList = [] := hreads.eq_nil
    have hbefore : tokenBefore? text text.length = none := by
      have htokens : tokenize text = [] ++ Token.finish text.length :: [] := by
        rw [tokenize, hnil]
      exact tokenBefore?_eq htokens
    refine ⟨.missingName (fun hb => hb.2 hnil) ?_, nofun, nofun⟩
    rw [hbefore]
    exact nofun
  | unclosed =>
    refine ⟨.leftBracket ⟨hviable, fun hnil => ?_⟩, nofun, nofun⟩
    obtain ⟨before, b, after, hdone, -⟩ := hreads.exists_bracket
    rw [hnil] at hdone
    exact List.append_ne_nil_of_right_ne_nil _ (List.cons_ne_nil _ _) hdone.symm

/-- Where reading ends at a token, what stands in front of it settles the fault. -/
theorem exists_faultAt_token {st : ReadState} {f : ReadFailure}
    (hscan : Token.scan 0 text.toList = done ++ t :: rest)
    (hover : ReadsOver .needsName [] done st lists) (hreads : Reads st lists done)
    (hend : Ends text.length st lists (t :: rest) (.error f)) :
    IsLongestViable text t.index ∧ FaultAt text t.index f.fault ∧ f.index = t.index ∧
      t.index < text.length ∧
      (f.fault = .rightBracket → ∃ e, Spells (front text t.index) e) := by
  have hlongest := isLongestViable_index hscan hover hend
  have ht : t ∈ Token.scan 0 text.toList := by simp [hscan]
  have hlt : t.index < text.length := Token.index_lt_length ht
  have hpart : ¬ IsBeginning text := fun hb =>
    Nat.ne_of_gt hlt ((isLongestViable_length hb.1).unique hlongest)
  have htokens : tokenize text = done ++ t :: (rest ++ [Token.finish text.length]) := by
    rw [tokenize, hscan, List.append_assoc, List.cons_append]
  have hbefore := tokenBefore?_eq htokens
  have hchar := getElem?_index_eq_rightBracket_iff hscan
  refine ⟨hlongest, ?_⟩
  cases hend with
  | noName ht =>
    refine ⟨.missingName hpart ?_, rfl, hlt, nofun⟩
    rw [hbefore]
    exact hreads.kind_getLast?
  | unopened ht =>
    obtain ⟨u, hu, hk⟩ := hreads.exists_getLast?
    refine ⟨.rightBracket hpart (hbefore ▸ hu) hk (hchar.2 ht), rfl, hlt, fun _ => ?_⟩
    obtain ⟨ts, us, rfl, hlists, hd, -⟩ := hreads
    cases hlists
    have hfront : Token.scan 0 (front text t.index).toList = us := by
      rw [toList_front]
      exact Token.scan_take hscan
    exact ⟨_, us, hfront ▸ Token.lexed_scan 0 _, hd⟩
  | extra _ hr _ =>
    obtain ⟨u, hu, hk⟩ := hreads.exists_getLast?
    exact ⟨.extraCharacters hpart (hbefore ▸ hu) hk (mt hchar.1 hr), rfl, hlt, nofun⟩

/-- The extra characters are all that stands behind the longest viable front. -/
theorem ParseError.exists_extra? {err : ParseError} (hfault : err.fault = .extraCharacters)
    (htext : err.text = text) (hindex : err.index = i) (hi : i < text.length) :
    ∃ extra, err.extra? = some extra ∧ extra = String.ofList (text.toList.drop i) ∧ extra ≠ "" ∧
      text = front text i ++ extra := by
  have hextra : err.extra? = some (String.ofList (text.toList.drop i)) := by
    have hneg : ¬ (i : Int) < 0 := by omega
    rw [ParseError.extra?, if_pos hfault, ParseError.remainder, htext, hindex]
    simp only [if_neg hneg, Int.toNat_natCast]
  refine ⟨_, hextra, rfl, fun hempty => ?_, ?_⟩
  · have hdrop := congrArg String.toList hempty
    rw [String.toList_ofList, String.toList_empty, List.drop_eq_nil_iff,
      String.length_toList] at hdrop
    omega
  · rw [front, ← String.ofList_append, List.take_append_drop, String.ofList_toList]

end

/-- The fault of an error, in either mode of parsing, is the one that the text has: it is settled
by the length of the longest viable front and by what stands at its end. A right bracket that
closes nothing stands behind a type expression, and extra characters are the whole rest of the
text behind the front. -/
theorem error_fault_iff_faultAt {text : String} {err : ParseError}
    (h : TypeExpr.parse text = .error err ∨ TypeExpr.parseCaseless text = .error err) :
    ∃ i, (∀ j, IsLongestViable text j ↔ j = i) ∧
      (∀ fault, FaultAt text i fault ↔ err.fault = fault) ∧
      (err.fault = .rightBracket → ∃ e, Spells (front text i) e) ∧
      (err.fault = .extraCharacters → ∃ extra, err.extra? = some extra ∧
        extra = String.ofList (text.toList.drop i) ∧ extra ≠ "" ∧
        text = front text i ++ extra) := by
  replace h : TypeExpr.parse text = .error err := h.elim id map_eq_error_iff.1
  have hiff : ∀ {i : Nat}, IsLongestViable text i → FaultAt text i err.fault →
      (∀ j, IsLongestViable text j ↔ j = i) ∧
        ∀ fault, FaultAt text i fault ↔ err.fault = fault := by
    intro i hi hfault
    refine ⟨fun j => ⟨fun hj => hj.unique hi, fun hj => hj ▸ hi⟩, fun fault => ⟨?_, ?_⟩⟩
    · exact hfault.unique
    · rintro rfl
      exact hfault
  obtain ⟨done, rest, st, lists, answer, hscan, hover, hreads, hend, hparse⟩ := exists_ends text
  rw [hparse] at h
  cases answer with
  | ok e => cases h
  | error f =>
    cases h
    cases rest with
    | nil =>
      rw [List.append_nil] at hscan
      obtain ⟨hlongest, hfault, hright, hextra⟩ := exists_faultAt_end hscan hover hreads hend
      obtain ⟨hi, hf⟩ := hiff hlongest hfault
      exact ⟨_, hi, hf, fun hr => absurd hr hright, fun hx => absurd hx hextra⟩
    | cons t rest =>
      obtain ⟨hlongest, hfault, hindex, hlt, hright⟩ := exists_faultAt_token hscan hover hreads hend
      obtain ⟨hi, hf⟩ := hiff hlongest hfault
      exact ⟨_, hi, hf, hright, fun hx => ParseError.exists_extra? hx rfl (congrArg _ hindex) hlt⟩

/-- The same bracket is one too many behind the whole expression and a missing name behind a comma,
and a second name is too much wherever it stands. -/
theorem error_fault_behind_list :
    (TypeExpr.parse "m[k[v]]]" = .error ⟨.rightBracket, "m[k[v]]]", 7⟩ ∧
      ∃ i, FaultAt "m[k[v]]]" i .rightBracket ∧ ∃ e, Spells (front "m[k[v]]]" i) e) ∧
    (TypeExpr.parse "m[k[v],]" = .error ⟨.missingName, "m[k[v],]", 7⟩ ∧
      ∃ i, FaultAt "m[k[v],]" i .missingName) ∧
    (TypeExpr.parse "m[k[v] w]" = .error ⟨.extraCharacters, "m[k[v] w]", 7⟩ ∧
      ∃ i, FaultAt "m[k[v] w]" i .extraCharacters ∧ "m[k[v] w]" = front "m[k[v] w]" i ++ "w]") := by
  have hright : TypeExpr.parse "m[k[v]]]" = .error ⟨.rightBracket, "m[k[v]]]", 7⟩ :=
    eq_error_of_error? (by decide +kernel)
  have hname : TypeExpr.parse "m[k[v],]" = .error ⟨.missingName, "m[k[v],]", 7⟩ :=
    eq_error_of_error? (by decide +kernel)
  have hextra : TypeExpr.parse "m[k[v] w]" = .error ⟨.extraCharacters, "m[k[v] w]", 7⟩ :=
    eq_error_of_error? (by decide +kernel)
  refine ⟨⟨hright, ?_⟩, ⟨hname, ?_⟩, ⟨hextra, ?_⟩⟩
  · obtain ⟨i, -, hfault, hspells, -⟩ := error_fault_iff_faultAt (.inl hright)
    exact ⟨i, (hfault _).2 rfl, hspells rfl⟩
  · obtain ⟨i, -, hfault, -⟩ := error_fault_iff_faultAt (.inl hname)
    exact ⟨i, (hfault _).2 rfl⟩
  · obtain ⟨i, -, hfault, -, hrest⟩ := error_fault_iff_faultAt (.inl hextra)
    obtain ⟨extra, hsome, -, -, htext⟩ := hrest rfl
    have hw : ParseError.extra? ⟨.extraCharacters, "m[k[v] w]", 7⟩ = some "w]" := by
      decide +kernel
    obtain rfl := Option.some.inj (hw.symm.trans hsome)
    exact ⟨i, (hfault _).2 rfl, htext⟩

end HierarchyLint
