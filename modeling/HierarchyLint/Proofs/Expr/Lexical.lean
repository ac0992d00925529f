import HierarchyLint.Expr.Token

/-!
# The lexical level of type expressions

`Lexed i cs ts` says what the tokens of a text are without scanning it: the characters `cs`, the
first of which has index `i`, are the tokens `ts` with blanks around them, and no name token is
followed by a character that could continue it. `scan` computes the one list of tokens that a
text has (`lexed_iff`).
-/

namespace HierarchyLint

/-- A name is one or more characters other than brackets, commas and blanks. -/
structure IsName (cs : List Char) : Prop where
  ne_nil : cs ≠ []
  chars : ∀ c ∈ cs, c ≠ '[' ∧ c ≠ ']' ∧ c ≠ ',' ∧ Text.isBlank c = false

theorem not_isName_leftBracket : ¬ IsName ['['] :=
  fun h => (h.chars '[' (List.mem_singleton.2 rfl)).1 rfl

theorem not_isName_rightBracket : ¬ IsName [']'] :=
  fun h => (h.chars ']' (List.mem_singleton.2 rfl)).2.1 rfl

theorem not_isName_comma : ¬ IsName [','] :=
  fun h => (h.chars ',' (List.mem_singleton.2 rfl)).2.2.1 rfl

theorem not_isName_blank {c : Char} (hc : Text.isBlank c = true) : ¬ IsName [c] := by
  intro h
  have hnot := (h.chars c (List.mem_singleton.2 rfl)).2.2.2
  rw [hc] at hnot
  cases hnot

namespace Token

/-- The characters `cs`, from index `i` on, are the tokens `ts` with blanks around them. -/
inductive Lexed : Nat → List Char → List Token → Prop where
  | finish {i : Nat} : Lexed i [] []
  | blank {i : Nat} {c : Char} {cs : List Char} {ts : List Token} :
      Text.isBlank c = true → Lexed (i + 1) cs ts → Lexed i (c :: cs) ts
  | leftBracket {i : Nat} {cs : List Char} {ts : List Token} :
      Lexed (i + 1) cs ts → Lexed i ('[' :: cs) (⟨.leftBracket, "[", i⟩ :: ts)
  | rightBracket {i : Nat} {cs : List Char} {ts : List Token} :
      Lexed (i + 1) cs ts → Lexed i (']' :: cs) (⟨.rightBracket, "]", i⟩ :: ts)
  | comma {i : Nat} {cs : List Char} {ts : List Token} :
      Lexed (i + 1) cs ts → Lexed i (',' :: cs) (⟨.comma, ",", i⟩ :: ts)
  | name {i : Nat} {n cs : List Char} {ts : List Token} :
      IsName n → (∀ c ∈ cs.head?, ¬ IsName [c]) → Lexed (i + n.length) cs ts →
      Lexed i (n ++ cs) (⟨.name, String.ofList n, i⟩ :: ts)

/-! ## Names -/

theorem isNameChar_iff (c : Char) :
    isNameChar c = true ↔ c ≠ '[' ∧ c ≠ ']' ∧ c ≠ ',' ∧ Text.isBlank c = false := by
  unfold isNameChar delimiter?
  by_cases h1 : c = '['
  · simp [h1]
  · by_cases h2 : c = ']'
    · simp [h2]
    · by_cases h3 : c = ','
      · simp [h3]
      · simp [h1, h2, h3]

theorem isNameChar_of_isName {n : List Char} (h : IsName n) : ∀ c ∈ n, isNameChar c = true :=
  fun c hc => (isNameChar_iff c).2 (h.chars c hc)

theorem isName_singleton_iff (c : Char) : IsName [c] ↔ isNameChar c = true := by
  rw [isNameChar_iff]
  constructor
  · intro h
    exact h.chars c (List.mem_singleton.2 rfl)
  · intro h
    exact ⟨List.cons_ne_nil c [], fun d hd => List.mem_singleton.1 hd ▸ h⟩

theorem isName_cons_takeWhile {c : Char} (h : isNameChar c = true) (cs : List Char) :
    IsName (c :: cs.takeWhile isNameChar) := by
  refine ⟨List.cons_ne_nil _ _, fun d hd => ?_⟩
  rcases List.mem_cons.1 hd with rfl | hd
  · exact (isNameChar_iff d).1 h
  · exact (isNameChar_iff d).1 (List.all_eq_true.1 List.all_takeWhile d hd)

/-! ## Scanning -/

theorem drop_length_takeWhile (p : Char → Bool) (cs : List Char) :
    cs.drop (cs.takeWhile p).length = cs.dropWhile p := by
  conv => lhs; rw [← List.takeWhile_append_dropWhile (p := p) (l := cs)]
  rw [List.drop_left']
  simp

/-- A name stops in front of a character that cannot continue it. -/
theorem takeWhile_name_append {n cs : List Char} (hn : ∀ c ∈ n, isNameChar c = true)
    (hcs : ∀ c ∈ cs.head?, ¬ IsName [c]) : (n ++ cs).takeWhile isNameChar = n := by
  rw [List.takeWhile_append_of_pos hn]
  cases cs with
  | nil => simp
  | cons c cs =>
    have hc : isNameChar c = false := by
      have := hcs c rfl
      rw [isName_singleton_iff] at this
      simpa using this
    simp [hc]

theorem delimiter?_eq_some {c : Char} {kind : TokenKind} (h : delimiter? c = some kind) :
    (c = '[' ∧ kind = .leftBracket) ∨ (c = ']' ∧ kind = .rightBracket) ∨
      (c = ',' ∧ kind = .comma) := by
  unfold delimiter? at h
  split at h
  · rename_i hc; cases h; exact .inl ⟨hc, rfl⟩
  · split at h
    · rename_i hc; cases h; exact .inr (.inl ⟨hc, rfl⟩)
    · split at h
      · rename_i hc; cases h; exact .inr (.inr ⟨hc, rfl⟩)
      · cases h

theorem lexed_scan (i : Nat) (cs : List Char) : Lexed i cs (scan i cs) := by
  fun_induction scan i cs with
  | case1 i => exact .finish
  | case2 i c cs hb ih => exact .blank hb ih
  | case3 i c cs hb kind hd ih =>
    rcases delimiter?_eq_some hd with ⟨rfl, rfl⟩ | ⟨rfl, rfl⟩ | ⟨rfl, rfl⟩
    · exact .leftBracket ih
    · exact .rightBracket ih
    · exact .comma ih
  | case4 i c cs hb hd more ih =>
    have hc : isNameChar c = true := by simp [isNameChar, hb, hd]
    have hrest : ∀ d ∈ (cs.drop more.length).head?, ¬ IsName [d] := by
      intro d hd'
      rw [drop_length_takeWhile] at hd'
      rw [isName_singleton_iff]
      have := List.head?_dropWhile_not isNameChar cs
      rw [Option.mem_def.1 hd'] at this
      simpa using this
    have split : c :: cs = (c :: more) ++ cs.drop more.length := by
      rw [drop_length_takeWhile, List.cons_append, List.takeWhile_append_dropWhile]
    rw [split]
    refine .name (isName_cons_takeWhile hc cs) hrest ?_
    rw [List.length_cons, ← Nat.add_assoc, Nat.add_right_comm]
    exact ih

theorem scan_name_append {i : Nat} {n cs : List Char} (hn : IsName n)
    (hcs : ∀ c ∈ cs.head?, ¬ IsName [c]) :
    scan i (n ++ cs) = ⟨.name, String.ofList n, i⟩ :: scan (i + n.length) cs := by
  have hall := isNameChar_of_isName hn
  cases n with
  | nil => exact absurd rfl hn.ne_nil
  | cons c more =>
    have hc := hn.chars c (List.mem_cons_self ..)
    have hdelim : delimiter? c = none := by simp [delimiter?, hc.1, hc.2.1, hc.2.2.1]
    have hmore : (more ++ cs).takeWhile isNameChar = more :=
      takeWhile_name_append (fun d hd => hall d (List.mem_cons_of_mem c hd)) hcs
    rw [List.cons_append, scan]
    simp only [hc.2.2.2, Bool.false_eq_true, if_false, hdelim, hmore, List.drop_left]
    rw [List.length_cons, Nat.add_right_comm, Nat.add_assoc]

theorem scan_of_lexed {i : Nat} {cs : List Char} {ts : List Token} (h : Lexed i cs ts) :
    scan i cs = ts := by
  induction h with
  | finish => rw [scan]
  | blank hb _ ih => rw [scan, if_pos hb, ih]
  | leftBracket _ ih => rw [scan, if_neg (by decide), ← ih]; rfl
  | rightBracket _ ih => rw [scan, if_neg (by decide), ← ih]; rfl
  | comma _ ih => rw [scan, if_neg (by decide), ← ih]; rfl
  | name hn hcs _ ih => rw [scan_name_append hn hcs, ih]

/-- Scanning finds the tokens of a text, and a text has no others. -/
theorem lexed_iff {i : Nat} {cs : List Char} {ts : List Token} :
    Lexed i cs ts ↔ ts = scan i cs :=
  ⟨fun h => (scan_of_lexed h).symm, fun h => h ▸ lexed_scan i cs⟩

/-- The tokens of two texts are those of the whole, unless a name goes on across the seam. -/
theorem Lexed.append {i : Nat} {cs ds : List Char} {ts us : List Token} (h : Lexed i cs ts)
    (hseam : ∀ c ∈ cs.getLast?, ∀ d ∈ ds.head?, ¬ (IsName [c] ∧ IsName [d]))
    (k : Lexed (i + cs.length) ds us) : Lexed i (cs ++ ds) (ts ++ us) := by
  have tail : ∀ {c : Char} {cs : List Char},
      (∀ b ∈ (c :: cs).getLast?, ∀ d ∈ ds.head?, ¬ (IsName [b] ∧ IsName [d])) →
      ∀ b ∈ cs.getLast?, ∀ d ∈ ds.head?, ¬ (IsName [b] ∧ IsName [d]) := by
    intro c cs h b hb
    refine h b ?_
    rw [List.getLast?_cons, Option.mem_def.1 hb]
    rfl
  have shift : ∀ {i : Nat} {c : Char} {cs : List Char},
      Lexed (i + (c :: cs).length) ds us → Lexed (i + 1 + cs.length) ds us := by
    intro i c cs k
    rwa [List.length_cons, Nat.add_comm cs.length, ← Nat.add_assoc] at k
  induction h with
  | finish => exact k
  | blank hb _ ih => exact .blank hb (ih (tail hseam) (shift k))
  | leftBracket _ ih => exact .leftBracket (ih (tail hseam) (shift k))
  | rightBracket _ ih => exact .rightBracket (ih (tail hseam) (shift k))
  | comma _ ih => exact .comma (ih (tail hseam) (shift k))
  | @name i n cs ts hn hcs _ ih =>
    rw [List.append_assoc]
    refine .name hn ?_ (ih (fun c hc => hseam c ?_) ?_)
    · intro d hd hname
      cases cs with
      | nil =>
        rw [List.append_nil] at hseam
        have hlast := hn.chars _ (List.getLast_mem hn.ne_nil)
        have hc : IsName [n.getLast hn.ne_nil] :=
          (isName_singleton_iff _).2 ((isNameChar_iff _).2 hlast)
        exact hseam _ (List.getLast?_eq_some_getLast hn.ne_nil) d hd ⟨hc, hname⟩
      | cons c cs => exact hcs d hd hname
    · rw [List.getLast?_append, Option.mem_def.1 hc]
      rfl
    · rwa [List.length_append, ← Nat.add_assoc] at k

/-! ## Tokens of a text -/

theorem Lexed.kind_ne_finish {i : Nat} {cs : List Char} {ts : List Token} (h : Lexed i cs ts) :
    ∀ t ∈ ts, t.kind ≠ .finish := by
  induction h with
  | finish => intro t ht; cases ht
  | blank _ _ ih => exact ih
  | leftBracket _ ih | rightBracket _ ih | comma _ ih | name _ _ _ ih =>
    intro t ht
    rcases List.mem_cons.1 ht with rfl | ht
    · simp
    · exact ih t ht

theorem Lexed.isName_text {i : Nat} {cs : List Char} {ts : List Token} (h : Lexed i cs ts) :
    ∀ t ∈ ts, t.kind = .name → IsName t.text.toList := by
  induction h with
  | finish => intro t ht; cases ht
  | blank _ _ ih => exact ih
  | leftBracket _ ih | rightBracket _ ih | comma _ ih =>
    intro t ht hk
    rcases List.mem_cons.1 ht with rfl | ht
    · cases hk
    · exact ih t ht hk
  | name hn _ _ ih =>
    intro t ht hk
    rcases List.mem_cons.1 ht with rfl | ht
    · simpa using hn
    · exact ih t ht hk

theorem Lexed.index_bounds {i : Nat} {cs : List Char} {ts : List Token} (h : Lexed i cs ts) :
    ∀ t ∈ ts, i ≤ t.index ∧ t.index < i + cs.length := by
  induction h with
  | finish => intro t ht; cases ht
  | blank _ _ ih =>
    intro t ht
    have := ih t ht
    rw [List.length_cons]
    omega
  | leftBracket _ ih | rightBracket _ ih | comma _ ih =>
    intro t ht
    rw [List.length_cons]
    rcases List.mem_cons.1 ht with rfl | ht
    · dsimp only
      omega
    · have := ih t ht
      omega
  | @name i n cs ts hn _ _ ih =>
    intro t ht
    have hpos := List.length_pos_iff.2 hn.ne_nil
    rw [List.length_append]
    rcases List.mem_cons.1 ht with rfl | ht
    · show i ≤ i ∧ i < _
      omega
    · have := ih t ht
      omega

theorem Lexed.pairwise_index {i : Nat} {cs : List Char} {ts : List Token} (h : Lexed i cs ts) :
    ts.Pairwise fun t u => t.index < u.index := by
  induction h with
  | finish => exact .nil
  | blank _ _ ih => exact ih
  | leftBracket hts ih | rightBracket hts ih | comma hts ih =>
    exact .cons (fun u hu => (hts.index_bounds u hu).1) ih
  | @name i n cs ts hn _ hts ih =>
    have hpos := List.length_pos_iff.2 hn.ne_nil
    refine .cons (fun u hu => ?_) ih
    have := (hts.index_bounds u hu).1
    show i < u.index
    omega

theorem index_lt_length {text : String} {t : Token} (h : t ∈ scan 0 text.toList) :
    t.index < text.length := by
  have hbound := ((lexed_scan 0 text.toList).index_bounds t h).2
  rwa [Nat.zero_add, String.length_toList] at hbound

end Token

theorem pairwise_tokenize (text : String) :
    (tokenize text).Pairwise fun t u => t.index < u.index := by
  have hlexed := Token.lexed_scan 0 text.toList
  refine List.pairwise_append.2 ⟨hlexed.pairwise_index, List.pairwise_singleton _ _, ?_⟩
  intro t ht u hu
  obtain rfl := List.mem_singleton.1 hu
  exact Token.index_lt_length ht

end HierarchyLint
