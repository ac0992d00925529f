import HierarchyLint.Proofs.Expr.Cutting
import HierarchyLint.Proofs.Expr.Reading

/-!
# Matching brackets

`depth? n cs` counts the brackets that are open behind the characters `cs`, where `n` are open in
front of them. A left bracket is closed by a right one if the characters between them balance, and
`InnermostOpen` is the last left bracket that nothing closes. Derivations balance, so the innermost
open list of the reader is the innermost open bracket of the text (`Reads.innermostOpen`).
-/

namespace HierarchyLint

/-- The number of brackets that are open behind the characters, with `n` open in front of them.
There is none if a right bracket closes nothing. -/
def depth? (n : Nat) : List Char → Option Nat
  | [] => some n
  | c :: cs =>
    if c = '[' then depth? (n + 1) cs
    else if c = ']' then
      match n with
      | 0 => none
      | n + 1 => depth? n cs
    else depth? n cs

/-- Every bracket among the characters has its partner among them. -/
def Balanced (cs : List Char) : Prop := depth? 0 cs = some 0

instance (cs : List Char) : Decidable (Balanced cs) := inferInstanceAs (Decidable (_ = _))

/-- The character at index `i` is a left bracket that a later right bracket closes. -/
def IsClosed (cs : List Char) (i : Nat) : Prop :=
  ∃ as bs ds, cs = as ++ '[' :: bs ++ ']' :: ds ∧ as.length = i ∧ Balanced bs

/-- The character at index `i` is the last left bracket that nothing closes. -/
structure InnermostOpen (cs : List Char) (i : Nat) : Prop where
  bracket : cs[i]? = some '['
  unclosed : ¬ IsClosed cs i
  closed_later : ∀ j, i < j → cs[j]? = some '[' → IsClosed cs j

section
variable {n m : Nat} {c : Char} {as bs cs ds : List Char}

@[simp] theorem depth?_nil (n : Nat) : depth? n [] = some n := rfl

@[simp] theorem depth?_leftBracket (n : Nat) (cs : List Char) :
    depth? n ('[' :: cs) = depth? (n + 1) cs := rfl

theorem depth?_rightBracket_zero (cs : List Char) : depth? 0 (']' :: cs) = none := rfl

theorem depth?_other (hl : c ≠ '[') (hr : c ≠ ']') (n : Nat) (cs : List Char) :
    depth? n (c :: cs) = depth? n cs := by
  cases n <;> simp [depth?, hl, hr]

theorem depth?_append (n : Nat) (cs ds : List Char) :
    depth? n (cs ++ ds) = (depth? n cs).bind (depth? · ds) := by
  fun_induction depth? n cs with
  | case1 n => rfl
  | case2 n cs ih => exact ih
  | case3 cs h => rfl
  | case4 cs h n ih => exact ih
  | case5 n c cs hl hr ih => rw [List.cons_append, depth?_other hl hr, ih]

theorem depth?_name_append (h : ∀ c ∈ cs, c ≠ '[' ∧ c ≠ ']') (n : Nat) (ds : List Char) :
    depth? n (cs ++ ds) = depth? n ds := by
  induction cs with
  | nil => rfl
  | cons c cs ih =>
    obtain ⟨⟨hl, hr⟩, hcs⟩ := List.forall_mem_cons.1 h
    rw [List.cons_append, depth?_other hl hr, ih hcs]

/-- Where fewer brackets are open at the end than at the beginning, some right bracket is the first
to close one of them. -/
theorem exists_closing_bracket {k : Nat} (h : depth? (n + k + 1) cs = some m) (hm : m ≤ k) :
    ∃ bs ds, cs = bs ++ ']' :: ds ∧ depth? n bs = some 0 := by
  generalize hstart : n + k + 1 = start at h
  fun_induction depth? start cs generalizing n with
  | case1 =>
    cases h
    omega
  | case2 start cs ih =>
    obtain ⟨bs, ds, rfl, hbs⟩ := ih (n := n + 1) (by omega) h
    exact ⟨'[' :: bs, ds, rfl, hbs⟩
  | case3 cs _ => cases h
  | case4 cs _ start ih =>
    cases n with
    | zero => exact ⟨[], cs, rfl, rfl⟩
    | succ n =>
      obtain ⟨bs, ds, rfl, hbs⟩ := ih (n := n) (by omega) h
      exact ⟨']' :: bs, ds, rfl, hbs⟩
  | case5 start c cs hl hr ih =>
    obtain ⟨bs, ds, rfl, hbs⟩ := ih hstart h
    exact ⟨c :: bs, ds, rfl, (depth?_other hl hr n bs).trans hbs⟩

theorem Balanced.exists_closing_bracket (h : Balanced (as ++ '[' :: cs)) :
    ∃ bs ds, cs = bs ++ ']' :: ds ∧ Balanced bs := by
  rw [Balanced, depth?_append] at h
  obtain ⟨k, -, hk⟩ := Option.bind_eq_some_iff.1 h
  rw [depth?_leftBracket, ← Nat.zero_add k] at hk
  exact HierarchyLint.exists_closing_bracket hk (Nat.zero_le k)

theorem Balanced.not_balanced_rightBracket (h : Balanced cs) : ¬ Balanced (cs ++ ']' :: ds) := by
  rw [Balanced, depth?_append, h, Option.bind_some, depth?_rightBracket_zero]
  exact nofun

/-- A left bracket with balanced characters behind it is the innermost open one. -/
theorem innermostOpen_of_balanced (h : Balanced cs) :
    InnermostOpen (as ++ '[' :: cs) as.length where
  bracket := by simp
  unclosed := by
    rintro ⟨as', bs, ds, heq, hlen, hbs⟩
    rw [List.append_assoc] at heq
    obtain ⟨-, hcs⟩ := List.append_inj heq hlen.symm
    obtain rfl : cs = bs ++ ']' :: ds := (List.cons.inj hcs).2
    exact hbs.not_balanced_rightBracket h
  closed_later j hj hbracket := by
    obtain ⟨k, rfl⟩ : ∃ k, j = as.length + (k + 1) := ⟨j - (as.length + 1), by omega⟩
    have hk : cs[k]? = some '[' := by
      rwa [List.getElem?_append_right (Nat.le_add_right ..), Nat.add_sub_cancel_left,
        List.getElem?_cons_succ] at hbracket
    obtain ⟨hlt, hget⟩ := List.getElem?_eq_some_iff.1 hk
    have hsplit : cs.take k ++ '[' :: cs.drop (k + 1) = cs := by
      rw [← hget, List.getElem_cons_drop, List.take_append_drop]
    obtain ⟨bs, ds, hdrop, hbs⟩ := Balanced.exists_closing_bracket (hsplit.symm ▸ h)
    refine ⟨as ++ '[' :: cs.take k, bs, ds, ?_, ?_, hbs⟩
    · rw [List.append_assoc, List.append_assoc, List.cons_append, List.cons_append, ← hdrop,
        hsplit]
    · rw [List.length_append, List.length_cons, List.length_take_of_le (Nat.le_of_lt hlt)]

end

/-! ## Brackets of tokens -/

def Token.bracket? (t : Token) : Option Char :=
  match t.kind with
  | .leftBracket => some '['
  | .rightBracket => some ']'
  | _ => none

def brackets (ts : List Token) : List Char := ts.filterMap Token.bracket?

section
variable {t : Token} {ts us : List Token} {e : TypeExpr} {es : List TypeExpr} {n : Nat}

@[simp] theorem brackets_nil : brackets [] = [] := rfl

@[simp] theorem brackets_append (ts us : List Token) :
    brackets (ts ++ us) = brackets ts ++ brackets us :=
  List.filterMap_append ..

theorem brackets_leftBracket (h : t.kind = .leftBracket) :
    brackets (t :: ts) = '[' :: brackets ts :=
  List.filterMap_cons_some (by rw [Token.bracket?, h])

theorem brackets_rightBracket (h : t.kind = .rightBracket) :
    brackets (t :: ts) = ']' :: brackets ts :=
  List.filterMap_cons_some (by rw [Token.bracket?, h])

theorem brackets_name (h : t.kind = .name) : brackets (t :: ts) = brackets ts :=
  List.filterMap_cons_none (by rw [Token.bracket?, h])

theorem brackets_comma (h : t.kind = .comma) : brackets (t :: ts) = brackets ts :=
  List.filterMap_cons_none (by rw [Token.bracket?, h])

theorem Token.Lexed.depth?_eq {i : Nat} {cs : List Char} (h : Lexed i cs ts) (n : Nat) :
    depth? n cs = depth? n (brackets ts) := by
  induction h generalizing n with
  | finish => rfl
  | @blank _ c _ _ hc _ ih =>
    have hl : c ≠ '[' := by
      rintro rfl
      cases hc
    have hr : c ≠ ']' := by
      rintro rfl
      cases hc
    rw [depth?_other hl hr, ih]
  | leftBracket _ ih => rw [brackets_leftBracket rfl, depth?_leftBracket, depth?_leftBracket, ih]
  | rightBracket _ ih =>
    rw [brackets_rightBracket rfl]
    cases n with
    | zero => rfl
    | succ n => exact ih n
  | comma _ ih => rw [brackets_comma rfl, depth?_other (by decide) (by decide), ih]
  | name hn _ _ ih =>
    have hname : ∀ c ∈ _, c ≠ '[' ∧ c ≠ ']' := fun c hc => ⟨(hn.chars c hc).1, (hn.chars c hc).2.1⟩
    rw [brackets_name rfl, depth?_name_append hname, ih]

/-- A text that begins with a left bracket as its first token goes on behind the bracket. -/
theorem Token.Lexed.exists_of_leftBracket {i : Nat} {cs : List Char} (h : Lexed i cs (t :: ts))
    (hi : t.index = i) (ht : t.kind = .leftBracket) :
    ∃ rest, cs = '[' :: rest ∧ Lexed (i + 1) rest ts := by
  cases h with
  | blank _ hrest =>
    have := (hrest.index_bounds t (List.mem_cons_self ..)).1
    omega
  | leftBracket hrest => exact ⟨_, rfl, hrest⟩
  | rightBracket _ | comma _ | name _ _ _ => cases ht

mutual

/-- An expression opens as many brackets as it closes. -/
theorem TypeExpr.Derives.depth?_eq {ts : List Token} {e : TypeExpr} (h : Derives ts e) (n : Nat) :
    depth? n (brackets ts) = some n := by
  cases h with
  | bare ht => rw [brackets_name ht, brackets_nil, depth?_nil]
  | list ht hl hr hes =>
    rw [brackets_name ht, brackets_leftBracket hl, brackets_append, brackets_rightBracket hr,
      depth?_leftBracket, depth?_append, hes.depth?_eq (n + 1)]
    rfl

theorem TypeExpr.DerivesList.depth?_eq {ts : List Token} {es : List TypeExpr}
    (h : DerivesList ts es) (n : Nat) :
    depth? n (brackets ts) = some n := by
  cases h with
  | one he => exact he.depth?_eq n
  | more he hc hes =>
    rw [brackets_append, brackets_comma hc, depth?_append, he.depth?_eq n]
    exact hes.depth?_eq n

end

theorem ReadsParams.depth?_eq (h : ReadsParams es ts) (n : Nat) :
    depth? n (brackets ts) = some n := by
  induction h with
  | nil => rfl
  | cons _ he hc ih =>
    rw [brackets_append, brackets_append, brackets_comma hc, depth?_append, depth?_append, ih,
      Option.bind_some, he.depth?_eq n]
    rfl

/-- Behind the bracket of the innermost open list the tokens balance. -/
theorem Reads.exists_bracket {st : ReadState} {l : OpenList} {lists : List OpenList}
    {done : List Token} (h : Reads st (l :: lists) done) :
    ∃ before b after, done = before ++ b :: after ∧ b.kind = .leftBracket ∧
      b.index = l.bracket ∧ Balanced (brackets after) := by
  cases st with
  | needsName =>
    obtain - | @⟨_, _, t, b, ts, us, _, _, _, hb, hi, hus⟩ := h
    exact ⟨ts ++ [t], b, us, by simp, hb, hi, hus.depth?_eq 0⟩
  | hasExpr e bare =>
    obtain ⟨ts, vs, rfl, hl, he, -⟩ := h
    obtain - | @⟨_, _, t, b, ts, us, _, _, _, hb, hi, hus⟩ := hl
    refine ⟨ts ++ [t], b, us ++ vs, by simp, hb, hi, ?_⟩
    rw [Balanced, brackets_append, depth?_append, hus.depth?_eq 0]
    exact he.depth?_eq 0

/-- At the end of a text the innermost open list is that of the innermost open bracket. -/
theorem Reads.innermostOpen {st : ReadState} {l : OpenList} {lists : List OpenList}
    {cs : List Char} (h : Reads st (l :: lists) (Token.scan 0 cs)) :
    InnermostOpen cs l.bracket := by
  obtain ⟨before, b, after, hscan, hb, hi, hafter⟩ := h.exists_bracket
  obtain ⟨as, bs, rfl, hcut⟩ := (hscan ▸ Token.lexed_scan 0 cs).cut
  obtain ⟨rest, rfl, hrest⟩ := hcut.back.exists_of_leftBracket rfl hb
  have hbalanced : Balanced rest := (hrest.depth?_eq 0).trans hafter
  rw [← hi, hcut.index, Nat.zero_add]
  exact innermostOpen_of_balanced hbalanced

end

end HierarchyLint
