import HierarchyLint.Proofs.Expr.Lexical

/-!
# Cutting a text at a token

A token divides its text: the characters in front of it have the tokens in front of it, and no name
goes on across the cut (`Lexed.split`). What kind of token begins at a place is settled by the
character there. So the tokens up to a place, and the kind of the one that begins there, are the
same in every text that agrees up to this place (`scan_of_agrees`).
-/

namespace HierarchyLint.Token

variable {i : Nat} {cs ds : List Char} {t : Token} {ts us : List Token}

/-- No name goes on from the first characters to the second. -/
def Seam (cs ds : List Char) : Prop :=
  ∀ c ∈ cs.getLast?, ∀ d ∈ ds.head?, ¬ (IsName [c] ∧ IsName [d])

theorem Seam.nil_left (ds : List Char) : Seam [] ds := nofun

theorem Seam.cons {c : Char} (hc : ¬ IsName [c]) (h : Seam cs ds) : Seam (c :: cs) ds := by
  intro b hb d hd
  cases cs with
  | nil =>
    obtain rfl := Option.some.inj hb
    exact fun hbd => hc hbd.1
  | cons c' cs =>
    rw [List.getLast?_cons_cons] at hb
    exact h b hb d hd

/-- A name that stops in front of the rest does not go on behind a part of it. -/
theorem Seam.name {n : List Char} (hrest : ∀ c ∈ (cs ++ ds).head?, ¬ IsName [c])
    (h : Seam cs ds) : Seam (n ++ cs) ds := by
  intro b hb d hd
  cases cs with
  | nil => exact fun hbd => hrest d hd hbd.2
  | cons c cs =>
    have hlast : (n ++ c :: cs).getLast? = (c :: cs).getLast? := by
      rw [List.getLast?_append, List.getLast?_cons]
      rfl
    exact h b (hlast ▸ hb) d hd

/-- The tokens of a text are those of its parts, if no name is cut. -/
theorem scan_append (hseam : Seam cs ds) (i : Nat) :
    scan i (cs ++ ds) = scan i cs ++ scan (i + cs.length) ds :=
  scan_of_lexed ((lexed_scan i cs).append hseam (lexed_scan _ ds))

/-- The token `t` begins behind the characters `as`, which have the tokens `ts`; from there on the
tokens are `t` and `us`. -/
structure Cut (i : Nat) (as bs : List Char) (ts : List Token) (t : Token) (us : List Token) :
    Prop where
  index : t.index = i + as.length
  front : Lexed i as ts
  back : Lexed t.index bs (t :: us)
  seam : Seam as bs

theorem Cut.here (h : Lexed i cs (t :: us)) (hi : t.index = i) : Cut i [] cs [] t us :=
  ⟨hi, .finish, hi ▸ h, .nil_left cs⟩

/-- The cut stays where it is with one more character in front that no name holds. -/
theorem Cut.cons {as bs : List Char} {c : Char} (h : Cut (i + 1) as bs ts t us)
    (hc : ¬ IsName [c]) {ts' : List Token} (hfront : Lexed i (c :: as) ts') :
    Cut i (c :: as) bs ts' t us where
  index := by
    rw [h.index, List.length_cons]
    omega
  front := hfront
  back := h.back
  seam := h.seam.cons hc

theorem Lexed.cut (h : Lexed i cs (ts ++ t :: us)) :
    ∃ as bs, cs = as ++ bs ∧ Cut i as bs ts t us := by
  generalize hwhole : ts ++ t :: us = whole at h
  induction h generalizing ts with
  | finish => cases ts <;> cases hwhole
  | blank hb _ ih =>
    obtain ⟨as, bs, rfl, hcut⟩ := ih hwhole
    exact ⟨_ :: as, bs, rfl, hcut.cons (not_isName_blank hb) (.blank hb hcut.front)⟩
  | leftBracket hrest ih =>
    rcases List.append_eq_cons_iff.1 hwhole with ⟨rfl, heq⟩ | ⟨ts, rfl, heq⟩
    · cases heq
      exact ⟨[], _, rfl, .here (.leftBracket hrest) rfl⟩
    · obtain ⟨as, bs, rfl, hcut⟩ := ih heq.symm
      exact ⟨_ :: as, bs, rfl, hcut.cons not_isName_leftBracket (.leftBracket hcut.front)⟩
  | rightBracket hrest ih =>
    rcases List.append_eq_cons_iff.1 hwhole with ⟨rfl, heq⟩ | ⟨ts, rfl, heq⟩
    · cases heq
      exact ⟨[], _, rfl, .here (.rightBracket hrest) rfl⟩
    · obtain ⟨as, bs, rfl, hcut⟩ := ih heq.symm
      exact ⟨_ :: as, bs, rfl, hcut.cons not_isName_rightBracket (.rightBracket hcut.front)⟩
  | comma hrest ih =>
    rcases List.append_eq_cons_iff.1 hwhole with ⟨rfl, heq⟩ | ⟨ts, rfl, heq⟩
    · cases heq
      exact ⟨[], _, rfl, .here (.comma hrest) rfl⟩
    · obtain ⟨as, bs, rfl, hcut⟩ := ih heq.symm
      exact ⟨_ :: as, bs, rfl, hcut.cons not_isName_comma (.comma hcut.front)⟩
  | @name i n _ _ hn hcs hrest ih =>
    rcases List.append_eq_cons_iff.1 hwhole with ⟨rfl, heq⟩ | ⟨ts, rfl, heq⟩
    · cases heq
      exact ⟨[], _, rfl, .here (.name hn hcs hrest) rfl⟩
    · obtain ⟨as, bs, rfl, hcut⟩ := ih heq.symm
      have hindex : t.index = i + (n ++ as).length := by
        rw [hcut.index, List.length_append]
        omega
      have hstop : ∀ c ∈ as.head?, ¬ IsName [c] := by
        intro c hc
        refine hcs c ?_
        rw [List.head?_append, Option.mem_def.1 hc]
        rfl
      exact ⟨n ++ as, bs, (List.append_assoc ..).symm,
        hindex, .name hn hstop hcut.front, hcut.back, hcut.seam.name hcs⟩

/-! ## The kind of a token -/

def kindOf (c : Char) : TokenKind := (delimiter? c).getD .name

theorem kindOf_of_isName {c : Char} (hc : isNameChar c = true) : kindOf c = .name := by
  unfold isNameChar at hc
  rw [kindOf, Option.isNone_iff_eq_none.1 (Bool.and_eq_true_iff.1 hc).2]
  rfl

/-- A token at the front of a text has the kind that the first character calls for. -/
theorem Lexed.exists_first (h : Lexed i cs (t :: ts)) (hi : t.index = i) :
    ∃ c rest, cs = c :: rest ∧ Text.isBlank c = false ∧ t.kind = kindOf c := by
  cases h with
  | blank _ hrest =>
    have := (hrest.index_bounds t (List.mem_cons_self ..)).1
    omega
  | leftBracket _ => exact ⟨'[', _, rfl, rfl, rfl⟩
  | rightBracket _ => exact ⟨']', _, rfl, rfl, rfl⟩
  | comma _ => exact ⟨',', _, rfl, rfl, rfl⟩
  | @name _ n cs _ hn _ _ =>
    cases n with
    | nil => exact absurd rfl hn.ne_nil
    | cons c n =>
      have hc : c ∈ c :: n := List.mem_cons_self ..
      exact ⟨c, n ++ cs, rfl, (hn.chars c hc).2.2.2,
        (kindOf_of_isName (isNameChar_of_isName hn c hc)).symm⟩

theorem exists_scan_cons {c : Char} (hc : Text.isBlank c = false) (i : Nat) (cs : List Char) :
    ∃ t ts, scan i (c :: cs) = t :: ts ∧ t.index = i ∧ t.kind = kindOf c := by
  rw [scan, if_neg (by rw [hc]; exact Bool.false_ne_true), kindOf]
  cases delimiter? c with
  | none => exact ⟨_, _, rfl, rfl, rfl⟩
  | some kind => exact ⟨_, _, rfl, rfl, rfl⟩

/-! ## Texts that agree up to a place -/

theorem scan_take (h : scan 0 cs = ts ++ t :: us) : scan 0 (cs.take t.index) = ts := by
  obtain ⟨as, bs, rfl, hcut⟩ := (h ▸ lexed_scan 0 cs).cut
  rw [hcut.index, Nat.zero_add, List.take_left]
  exact scan_of_lexed hcut.front

/-- In a text that agrees with another one up to a token, and in the first character of it, there
are the same tokens in front of it, and one of the same kind at its place. -/
theorem scan_of_agrees (h : scan 0 cs = ts ++ t :: us) (hds : cs.take (t.index + 1) <+: ds) :
    ∃ u vs, scan 0 ds = ts ++ u :: vs ∧ u.kind = t.kind ∧ u.index = t.index := by
  obtain ⟨as, bs, rfl, hcut⟩ := (h ▸ lexed_scan 0 cs).cut
  obtain ⟨c, rest, rfl, hc, hkind⟩ := hcut.back.exists_first rfl
  obtain ⟨more, rfl⟩ := hds
  have hfront : (as ++ c :: rest).take (t.index + 1) = as ++ [c] := by
    rw [hcut.index, Nat.zero_add, List.take_length_add_append]
    rfl
  obtain ⟨u, vs, hscan, hu, hk⟩ := exists_scan_cons hc as.length more
  have hback : Lexed (0 + as.length) (c :: more) (u :: vs) := by
    rw [Nat.zero_add, ← hscan]
    exact lexed_scan as.length (c :: more)
  refine ⟨u, vs, ?_, hk.trans hkind.symm, by rw [hu, hcut.index, Nat.zero_add]⟩
  rw [hfront, List.append_assoc]
  exact scan_of_lexed (hcut.front.append hcut.seam hback)

end HierarchyLint.Token
