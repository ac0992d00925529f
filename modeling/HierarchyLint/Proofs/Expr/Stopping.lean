import HierarchyLint.Proofs.Answer
import HierarchyLint.Proofs.Expr.Reading

/-!
# Where reading stops

`ReadsOver` says that the reader gets over some tokens from one place to another, whatever follows
them. Reading a text gets over its tokens up to a place where it ends, at a token that cannot stand
there or at the end of the text, and `Ends` lists what the answer is there (`exists_ends`). Which
answer it is depends on the kind and the index of the offending token alone.
-/

namespace HierarchyLint

open TypeExpr

/-- The reader gets over the tokens from one place to another. -/
def ReadsOver (st : ReadState) (lists : List OpenList) (done : List Token) (st' : ReadState)
    (lists' : List OpenList) : Prop :=
  ∀ size us, readExpr size st lists (done ++ us) = readExpr size st' lists' us

/-- The answer about a text of the given size whose reading ends at a place, with some tokens
left. -/
inductive Ends (size : Nat) :
    ReadState → List OpenList → List Token → Except ReadFailure TypeExpr → Prop where
  | done {e : TypeExpr} {bare : Bool} : Ends size (.hasExpr e bare) [] [] (.ok e)
  | empty : Ends size .needsName [] [] (.error ⟨.missingName, size⟩)
  | unclosed {st : ReadState} {l : OpenList} {lists : List OpenList} :
      Ends size st (l :: lists) [] (.error ⟨.leftBracket, l.bracket⟩)
  | noName {lists : List OpenList} {t : Token} {ts : List Token} :
      t.kind ≠ .name → Ends size .needsName lists (t :: ts) (.error ⟨.missingName, t.index⟩)
  | unopened {e : TypeExpr} {bare : Bool} {t : Token} {ts : List Token} :
      t.kind = .rightBracket →
      Ends size (.hasExpr e bare) [] (t :: ts) (.error ⟨.rightBracket, t.index⟩)
  | extra {e : TypeExpr} {bare : Bool} {lists : List OpenList} {t : Token} {ts : List Token} :
      ¬(bare = true ∧ t.kind = .leftBracket) → t.kind ≠ .rightBracket →
      (lists ≠ [] → t.kind ≠ .comma) →
      Ends size (.hasExpr e bare) lists (t :: ts) (.error ⟨.extraCharacters, t.index⟩)

section
variable {st st' : ReadState} {lists lists' : List OpenList} {l : OpenList} {t : Token}
  {ts us done rest : List Token} {e : TypeExpr} {bare : Bool} {size : Nat}

/-! ## Getting over tokens -/

theorem ReadsOver.nil : ReadsOver st lists [] st lists := fun _ _ => rfl

theorem ReadsOver.name (ht : t.kind = .name)
    (h : ReadsOver (.hasExpr (leaf t.text) true) lists done st' lists') :
    ReadsOver .needsName lists (t :: done) st' lists' :=
  fun size us => (readExpr_name ht).trans (h size us)

theorem ReadsOver.leftBracket (ht : t.kind = .leftBracket)
    (h : ReadsOver .needsName (⟨e.name, t.index, []⟩ :: lists) done st' lists') :
    ReadsOver (.hasExpr e true) lists (t :: done) st' lists' :=
  fun size us => (readExpr_leftBracket ht).trans (h size us)

theorem ReadsOver.comma (ht : t.kind = .comma)
    (h : ReadsOver .needsName (l.add e :: lists) done st' lists') :
    ReadsOver (.hasExpr e bare) (l :: lists) (t :: done) st' lists' :=
  fun size us => (readExpr_comma ht).trans (h size us)

theorem ReadsOver.rightBracket (ht : t.kind = .rightBracket)
    (h : ReadsOver (.hasExpr (l.add e).close false) lists done st' lists') :
    ReadsOver (.hasExpr e bare) (l :: lists) (t :: done) st' lists' :=
  fun size us => (readExpr_rightBracket ht).trans (h size us)

/-! ## Ending -/

theorem Ends.exists_error {answer : Except ReadFailure TypeExpr}
    (h : Ends size st lists (t :: ts) answer) :
    ∃ f, answer = .error f ∧ f.index = t.index ∧
      f.fault ∈ [ParseFault.missingName, .rightBracket, .extraCharacters] := by
  cases h with
  | noName _ | unopened _ | extra _ _ _ => exact ⟨_, rfl, rfl, by simp⟩

/-- Another token of the same kind at the same place ends the reading in the same way. -/
theorem Ends.of_same_kind {size' : Nat} {u : Token} {answer : Except ReadFailure TypeExpr}
    (h : Ends size st lists (t :: ts) answer) (hk : u.kind = t.kind) (hi : u.index = t.index) :
    Ends size' st lists (u :: us) answer := by
  cases h with
  | noName ht =>
    rw [← hk] at ht
    rw [← hi]
    exact .noName ht
  | unopened ht =>
    rw [← hk] at ht
    rw [← hi]
    exact .unopened ht
  | extra hl hr hc =>
    rw [← hk] at hl hr hc
    rw [← hi]
    exact .extra hl hr hc

/-- Reading, with some tokens consumed before, gets over the first of the tokens and ends there. -/
structure Stops (size : Nat) (st : ReadState) (lists : List OpenList) (before ts done : List Token)
    (st' : ReadState) (lists' : List OpenList) (answer : Except ReadFailure TypeExpr) : Prop where
  passes : ReadsOver st lists done st' lists'
  reads : Reads st' lists' (before ++ done)
  ends : ∃ rest, ts = done ++ rest ∧ Ends size st' lists' rest answer

section
variable {before : List Token} {answer : Except ReadFailure TypeExpr} {st₁ : ReadState}
  {lists₁ : List OpenList}

theorem Stops.here (hst : Reads st lists before) (hend : Ends size st lists ts answer) :
    Stops size st lists before ts [] st lists answer where
  passes := .nil
  reads := by rwa [List.append_nil]
  ends := ⟨ts, rfl, hend⟩

theorem Stops.cons (h : Stops size st₁ lists₁ (before ++ [t]) ts done st' lists' answer)
    (hover : ReadsOver st₁ lists₁ done st' lists' → ReadsOver st lists (t :: done) st' lists') :
    Stops size st lists before (t :: ts) (t :: done) st' lists' answer where
  passes := hover h.passes
  reads := by
    have := h.reads
    rwa [List.append_assoc, List.singleton_append] at this
  ends := by
    obtain ⟨rest, rfl, hend⟩ := h.ends
    exact ⟨rest, rfl, hend⟩

/-- Reading gets over tokens as long as the grammar goes on, and then it ends. -/
theorem exists_stops (size : Nat) (st : ReadState) (lists : List OpenList) (ts : List Token)
    (hst : Reads st lists before) :
    ∃ done st' lists' answer, Stops size st lists before ts done st' lists' answer := by
  fun_induction readExpr size st lists ts generalizing before with
  | case1 => exact ⟨_, _, _, _, .here hst .empty⟩
  | case2 l lists => exact ⟨_, _, _, _, .here hst .unclosed⟩
  | case3 lists t ts hk ih =>
    obtain ⟨done, st', lists', answer, h⟩ := ih (hst.name hk)
    exact ⟨_, _, _, _, h.cons (.name hk)⟩
  | case4 lists t ts hk => exact ⟨_, _, _, _, .here hst (.noName hk)⟩
  | case5 e bare => exact ⟨_, _, _, _, .here hst .done⟩
  | case6 e bare l lists => exact ⟨_, _, _, _, .here hst .unclosed⟩
  | case7 e bare lists t ts hk ih =>
    obtain ⟨rfl, hk⟩ := hk
    obtain ⟨done, st', lists', answer, h⟩ := ih (hst.leftBracket hk)
    exact ⟨_, _, _, _, h.cons (.leftBracket hk)⟩
  | case8 e bare t ts hk =>
    by_cases hr : t.kind = .rightBracket
    · exact ⟨_, _, _, _, .here hst (.unopened hr)⟩
    · exact ⟨_, _, _, _, .here hst (.extra hk hr fun hne => absurd rfl hne)⟩
  | case9 e bare t ts hb l lists hk ih =>
    obtain ⟨done, st', lists', answer, h⟩ := ih (hst.comma hk)
    exact ⟨_, _, _, _, h.cons (.comma hk)⟩
  | case10 e bare t ts hb l lists hc hk ih =>
    obtain ⟨done, st', lists', answer, h⟩ := ih (hst.rightBracket hk)
    exact ⟨_, _, _, _, h.cons (.rightBracket hk)⟩
  | case11 e bare t ts hb l lists hc hr =>
    exact ⟨_, _, _, _, .here hst (.extra hb hr fun _ => hc)⟩

end

end

/-! ## Whole texts -/

/-- The answer about a text is settled by the place where its reading ends. -/
theorem parse_of_ends {text : String} {done rest : List Token} {st : ReadState}
    {lists : List OpenList} {answer : Except ReadFailure TypeExpr}
    (hscan : Token.scan 0 text.toList = done ++ rest)
    (hover : ReadsOver .needsName [] done st lists) (hend : Ends text.length st lists rest answer) :
    TypeExpr.parse text = answer.mapError fun f => ⟨f.fault, text, f.index⟩ := by
  have hkinds := (Token.lexed_scan 0 text.toList).kind_ne_finish
  rw [hscan] at hkinds
  unfold TypeExpr.parse Parser.parse Parser.typeExpr Parser.ofText
  dsimp only
  rw [hscan, hover]
  cases hend with
  | done => rfl
  | empty => rfl
  | @unclosed st l lists => cases st <;> rfl
  | @noName lists t ts hk =>
    have hread : readExpr text.length .needsName lists (t :: ts)
        = (.error ⟨.missingName, t.index⟩, t :: ts) := by
      cases lists <;> simp [readExpr, hk]
    rw [hread]
    rfl
  | @unopened e bare t ts hk =>
    have hread : readExpr text.length (.hasExpr e bare) [] (t :: ts) = (.ok e, t :: ts) := by
      simp [readExpr, hk]
    rw [hread]
    simp only [mapError_ok, mapError_error, Parser.current, List.headD_cons, hk]
    rfl
  | @extra e bare lists t ts hl hr hc =>
    cases lists with
    | nil =>
      have hread : readExpr text.length (.hasExpr e bare) [] (t :: ts) = (.ok e, t :: ts) := by
        simp [readExpr, hl]
      have hfinish : t.kind ≠ .finish := hkinds t (by simp)
      rw [hread]
      simp only [mapError_ok, mapError_error, Parser.current, List.headD_cons]
      rfl
    | cons l lists =>
      have hread : readExpr text.length (.hasExpr e bare) (l :: lists) (t :: ts)
          = (.error ⟨.extraCharacters, t.index⟩, t :: ts) := by
        simp [readExpr, hl, hr, hc]
      rw [hread]
      rfl

theorem exists_ends (text : String) :
    ∃ done rest st lists answer, Token.scan 0 text.toList = done ++ rest ∧
      ReadsOver .needsName [] done st lists ∧ Reads st lists done ∧
      Ends text.length st lists rest answer ∧
      TypeExpr.parse text = answer.mapError fun f => ⟨f.fault, text, f.index⟩ := by
  have start : Reads .needsName [] [] := ReadsLists.nil
  obtain ⟨done, st, lists, answer, hover, hreads, rest, hscan, hend⟩ :=
    exists_stops text.length .needsName [] (Token.scan 0 text.toList) start
  exact ⟨done, rest, st, lists, answer, hscan, hover, hreads, hend,
    parse_of_ends hscan hover hend⟩

end HierarchyLint
