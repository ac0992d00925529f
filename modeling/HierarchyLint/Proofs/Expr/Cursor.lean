import HierarchyLint.Proofs.Answer
import HierarchyLint.Proofs.Expr.Reading

/-!
# Reading one token at a time

`Cursor` is the parser as a machine that knows one token, the current one, and gets the next ones
from those that the scanner has yet to give. All it does it does through `take`, which halts if the
current token is not of the kind called for, or if the scanner has nothing more to give. Neither
happens while an expression is read: the machine answers as `Parser` does, and is left in the same
place (`cursor_call`), as long as no token but the last marks the end.
-/

namespace HierarchyLint

open TypeExpr

inductive Halt where
  /-- A token was called for, and the scanner had given the last one. -/
  | exhausted
  | mismatch (m : Mismatch)
  | failure (e : ParseError)

inductive Call where
  | take (kind : TokenKind)
  | typeExpr
  | parse

inductive Answer where
  | token (t : Token)
  | expr (e : TypeExpr)

/-- The call on a parser that consumes its tokens from a list. -/
def Parser.call (p : Parser) : Call → Except Halt Answer × Parser
  | .take kind => ((p.take kind).1.mapError .mismatch |>.map .token, (p.take kind).2)
  | .typeExpr => (p.typeExpr.1.mapError .failure |>.map .expr, p.typeExpr.2)
  | .parse => (p.parse.1.mapError .failure |>.map .expr, p.parse.2)

/-- A text with its current token and those that come behind it, up to the one that marks the
end. -/
structure Cursor where
  text : String
  current : Token
  pending : List Token

namespace Cursor

def ofText (text : String) : Cursor :=
  ⟨text, (tokenize text).headD (Token.finish text.length), (tokenize text).tail⟩

/-- The outcome of some steps, with the cursor where they left it. -/
abbrev Steps (α : Type) := Except Halt α × Cursor

/-- Goes on with the answer of the steps so far, if they gave one. -/
def Steps.andThen {α β : Type} (s : Steps α) (next : α → Cursor → Steps β) : Steps β :=
  match s with
  | (.ok a, c) => next a c
  | (.error h, c) => (.error h, c)

/-- Consumes a token of the given kind and gets the next one. At the end it stays. -/
def take (c : Cursor) (kind : TokenKind) : Steps Token :=
  if c.current.kind ≠ kind then (.error (.mismatch ⟨kind, c.current.kind⟩), c)
  else if c.current.kind = .finish then (.ok c.current, c)
  else match c.pending with
    | [] => (.error .exhausted, c)
    | t :: ts => (.ok c.current, { c with current := t, pending := ts })

def fail {α : Type} (c : Cursor) (fault : ParseFault) (index : Nat) : Steps α :=
  (.error (.failure ⟨fault, c.text, index⟩), c)

/-- Adds a complete expression to the innermost list, and closes all lists that end with it. The
answer is the outermost expression if no list is left, and the open lists if a parameter has to
follow. -/
def closeLists (c : Cursor) (e : TypeExpr) : List OpenList → Steps (TypeExpr ⊕ List OpenList)
  | [] => (.ok (.inl e), c)
  | l :: outer =>
    if c.current.kind = .comma then
      (c.take .comma).andThen fun _ c => (.ok (.inr (l.add e :: outer)), c)
    else if c.current.kind = .rightBracket then
      (c.take .rightBracket).andThen fun _ c => c.closeLists (l.add e).close outer
    else if c.current.kind = .finish then c.fail .leftBracket l.bracket
    else c.fail .extraCharacters c.current.index

/-- Halts where a name has to follow and none does. -/
def failName {α : Type} (c : Cursor) : List OpenList → Steps α
  | [] => c.fail .missingName c.current.index
  | l :: _ =>
    if c.current.kind = .finish then c.fail .leftBracket l.bracket
    else c.fail .missingName c.current.index

/-- One turn of reading: consumes a name, and then a bracket that opens its list or what closes
lists behind it. -/
def turn (c : Cursor) (lists : List OpenList) : Steps (TypeExpr ⊕ List OpenList) :=
  if c.current.kind = .name then
    (c.take .name).andThen fun n c =>
      if c.current.kind = .leftBracket then
        (c.take .leftBracket).andThen fun b c =>
          (.ok (.inr (⟨n.text, b.index, []⟩ :: lists)), c)
      else c.closeLists (leaf n.text) lists
  else c.failName lists

/-! ## Turn after turn -/

theorem take_pending_le (c : Cursor) (kind : TokenKind) :
    (c.take kind).2.pending.length ≤ c.pending.length := by
  unfold take
  split
  · exact Nat.le_refl _
  · split
    · exact Nat.le_refl _
    · split
      · exact Nat.le_refl _
      · rename_i h
        simp [h]

theorem take_pending_lt {c c' : Cursor} {kind : TokenKind} {t : Token} (hk : kind ≠ .finish)
    (h : c.take kind = (.ok t, c')) : c'.pending.length < c.pending.length := by
  unfold take at h
  split at h
  · cases h
  · rename_i hkind
    split at h
    · rename_i hfinish
      exact absurd ((Classical.not_not.1 hkind).symm.trans hfinish) hk
    · split at h
      · cases h
      · rename_i hpending
        cases h
        simp [hpending]

theorem andThen_pending_le {α β : Type} {s : Steps α} {next : α → Cursor → Steps β} {n : Nat}
    (hs : s.2.pending.length ≤ n)
    (hnext : ∀ a c, c.pending.length ≤ n → (next a c).2.pending.length ≤ n) :
    (s.andThen next).2.pending.length ≤ n := by
  obtain ⟨_ | a, c⟩ := s
  · exact hs
  · exact hnext a c hs

theorem closeLists_pending_le (c : Cursor) (e : TypeExpr) (lists : List OpenList) :
    (c.closeLists e lists).2.pending.length ≤ c.pending.length := by
  induction lists generalizing c e with
  | nil => exact Nat.le_refl _
  | cons l outer ih =>
    unfold closeLists
    split
    · exact andThen_pending_le (c.take_pending_le _) fun _ _ hc => hc
    · split
      · exact andThen_pending_le (c.take_pending_le _) fun _ c' hc => Nat.le_trans (ih c' _) hc
      · split
        · exact Nat.le_refl _
        · exact Nat.le_refl _

/-- A turn that calls for another one has consumed a name. -/
theorem turn_pending_lt {c c' : Cursor} {lists lists' : List OpenList}
    (h : c.turn lists = (.ok (.inr lists'), c')) : c'.pending.length < c.pending.length := by
  unfold turn at h
  split at h
  · rcases htake : c.take .name with ⟨_ | n, c₁⟩
    · rw [htake] at h
      cases h
    · have hne : TokenKind.name ≠ .finish := nofun
      have hlt : c₁.pending.length < c.pending.length := take_pending_lt hne htake
      rw [htake] at h
      have hrest := congrArg (fun s => s.2.pending.length) h
      dsimp only [Steps.andThen] at hrest
      rw [← hrest]
      refine Nat.lt_of_le_of_lt ?_ hlt
      split
      · exact andThen_pending_le (c₁.take_pending_le _) fun _ _ hc => hc
      · exact c₁.closeLists_pending_le _ _
  · unfold failName at h
    split at h
    · cases h
    · split at h <;> cases h

/-- Consumes an expression whose parameter lists so far are open, one turn after another. -/
def readFrom (c : Cursor) (lists : List OpenList) : Steps TypeExpr :=
  match _h : c.turn lists with
  | (.ok (.inl e), c') => (.ok e, c')
  | (.ok (.inr lists'), c') => c'.readFrom lists'
  | (.error halt, c') => (.error halt, c')
termination_by c.pending.length
decreasing_by exact turn_pending_lt _h

def typeExpr (c : Cursor) : Steps TypeExpr := c.readFrom []

/-- Consumes one type expression, after which the text has to end. -/
def parse (c : Cursor) : Steps TypeExpr :=
  c.typeExpr.andThen fun e c =>
    match c.current.kind with
    | .finish => (.ok e, c)
    | .rightBracket => c.fail .rightBracket c.current.index
    | _ => c.fail .extraCharacters c.current.index

def call (c : Cursor) : Call → Steps Answer
  | .take kind => (c.take kind).andThen fun t c => (.ok (.token t), c)
  | .typeExpr => c.typeExpr.andThen fun e c => (.ok (.expr e), c)
  | .parse => c.parse.andThen fun e c => (.ok (.expr e), c)

theorem readFrom_eq (c : Cursor) (lists : List OpenList) :
    c.readFrom lists = (c.turn lists).andThen fun r c =>
      match r with
      | .inl e => (.ok e, c)
      | .inr lists' => c.readFrom lists' := by
  rw [readFrom]
  split
  · rename_i h
    rw [h]
    rfl
  · rename_i h
    rw [h]
    rfl
  · rename_i h
    rw [h]
    rfl

/-! ## A list of tokens under the cursor -/

/-- The cursor in front of the tokens, which the one that marks the end follows. -/
def facing (text : String) (ts : List Token) : Cursor :=
  ⟨text, ts.headD (Token.finish text.length), (ts ++ [Token.finish text.length]).tail⟩

section
variable {text : String} {t : Token} {ts : List Token} {kind : TokenKind}

theorem take_facing (hk : t.kind = kind) (hne : kind ≠ .finish) :
    (facing text (t :: ts)).take kind = (.ok t, facing text ts) := by
  subst hk
  unfold take facing
  cases ts <;> simp [hne]

theorem take_facing_mismatch (hk : (facing text ts).current.kind ≠ kind) :
    (facing text ts).take kind
      = (.error (.mismatch ⟨kind, (facing text ts).current.kind⟩), facing text ts) :=
  if_pos hk

theorem take_facing_finish :
    (facing text []).take .finish = (.ok (Token.finish text.length), facing text []) := rfl

theorem kind_current_facing_nil : (facing text []).current.kind ≠ .leftBracket := by
  intro h
  cases h

/-- What the reader of a list of tokens answers, as an outcome of the cursor. -/
def reads (text : String) (st : ReadState) (lists : List OpenList) (ts : List Token) :
    Steps TypeExpr :=
  ((readExpr text.length st lists ts).1.mapError fun f => .failure ⟨f.fault, text, f.index⟩,
    facing text (readExpr text.length st lists ts).2)

/-- Reading goes on from a place between two tokens. -/
def resume (c : Cursor) : ReadState → List OpenList → Steps TypeExpr
  | .needsName, lists => c.readFrom lists
  | .hasExpr e bare, lists =>
    Steps.andThen
      (if bare = true ∧ c.current.kind = .leftBracket then
        (c.take .leftBracket).andThen fun b c =>
          (.ok (.inr (⟨e.name, b.index, []⟩ :: lists)), c)
      else c.closeLists e lists)
      fun r c =>
        match r with
        | .inl e => (.ok e, c)
        | .inr lists' => c.readFrom lists'

theorem closeLists_facing_comma {e : TypeExpr} {l : OpenList} {outer : List OpenList}
    (hk : t.kind = .comma) :
    (facing text (t :: ts)).closeLists e (l :: outer)
      = (.ok (.inr (l.add e :: outer)), facing text ts) := by
  have hcurrent : (facing text (t :: ts)).current.kind = .comma := hk
  rw [closeLists, if_pos hcurrent, take_facing hk nofun]
  rfl

theorem closeLists_facing_rightBracket {e : TypeExpr} {l : OpenList} {outer : List OpenList}
    (hk : t.kind = .rightBracket) :
    (facing text (t :: ts)).closeLists e (l :: outer)
      = (facing text ts).closeLists (l.add e).close outer := by
  have hcurrent : (facing text (t :: ts)).current.kind = .rightBracket := hk
  rw [closeLists, if_neg (by rw [hcurrent]; nofun), if_pos hcurrent, take_facing hk nofun]
  rfl

theorem closeLists_facing_other {e : TypeExpr} {l : OpenList} {outer : List OpenList}
    (hc : t.kind ≠ .comma) (hr : t.kind ≠ .rightBracket) (hf : t.kind ≠ .finish) :
    (facing text (t :: ts)).closeLists e (l :: outer)
      = (facing text (t :: ts)).fail .extraCharacters t.index := by
  have hcurrent : (facing text (t :: ts)).current = t := rfl
  rw [closeLists, hcurrent, if_neg hc, if_neg hr, if_neg hf]

/-- Reading a name leads into the place behind it. -/
theorem readFrom_facing_name {lists : List OpenList} (hk : t.kind = .name) :
    (facing text (t :: ts)).readFrom lists
      = (facing text ts).resume (.hasExpr (leaf t.text) true) lists := by
  have hcurrent : (facing text (t :: ts)).current.kind = .name := hk
  rw [readFrom_eq, turn, if_pos hcurrent, take_facing hk nofun]
  simp only [resume, true_and, Steps.andThen, leaf, name]

theorem readFrom_facing_other {lists : List OpenList} (hk : t.kind ≠ .name)
    (hf : t.kind ≠ .finish) :
    (facing text (t :: ts)).readFrom lists
      = (facing text (t :: ts)).fail .missingName t.index := by
  have hcurrent : (facing text (t :: ts)).current = t := rfl
  rw [readFrom_eq, turn, hcurrent, if_neg hk]
  cases lists with
  | nil => rfl
  | cons l lists =>
    rw [failName, hcurrent, if_neg hf]
    rfl

/-- Behind an expression that no list follows, the lists around it are closed. -/
theorem resume_facing_hasExpr {e : TypeExpr} {bare : Bool} {lists : List OpenList}
    (hb : ¬ (bare = true ∧ (facing text ts).current.kind = .leftBracket)) :
    (facing text ts).resume (.hasExpr e bare) lists
      = ((facing text ts).closeLists e lists).andThen fun r c =>
          match r with
          | .inl e => (.ok e, c)
          | .inr lists' => c.readFrom lists' := by
  rw [resume, if_neg hb]

/-- The cursor reads as the reader of a list of tokens does. -/
theorem resume_facing (hts : ∀ t ∈ ts, t.kind ≠ .finish) (st : ReadState) (lists : List OpenList) :
    (facing text ts).resume st lists = reads text st lists ts := by
  unfold reads
  fun_induction readExpr text.length st lists ts with
  | case1 =>
    rw [resume, readFrom_eq]
    rfl
  | case2 l lists =>
    rw [resume, readFrom_eq]
    rfl
  | case3 lists t ts hk ih =>
    rw [resume, readFrom_facing_name hk]
    exact ih (List.forall_mem_cons.1 hts).2
  | case4 lists t ts hk =>
    rw [resume, readFrom_facing_other hk (List.forall_mem_cons.1 hts).1]
    rfl
  | case5 e bare =>
    rw [resume_facing_hasExpr fun h => kind_current_facing_nil h.2]
    rfl
  | case6 e bare l lists =>
    rw [resume_facing_hasExpr fun h => kind_current_facing_nil h.2]
    rfl
  | case7 e bare lists t ts hk ih =>
    have hcurrent : bare = true ∧ (facing text (t :: ts)).current.kind = .leftBracket := hk
    rw [resume, if_pos hcurrent, take_facing hk.2 (by decide)]
    exact ih (List.forall_mem_cons.1 hts).2
  | case8 e bare t ts hk =>
    rw [resume_facing_hasExpr hk]
    rfl
  | case9 e bare t ts hb l lists hk ih =>
    rw [resume_facing_hasExpr hb, closeLists_facing_comma hk]
    exact ih (List.forall_mem_cons.1 hts).2
  | case10 e bare t ts hb l lists hc hk ih =>
    have hb' : ¬ (false = true ∧ (facing text ts).current.kind = .leftBracket) := by
      rintro ⟨hbare, -⟩
      cases hbare
    rw [resume_facing_hasExpr hb, closeLists_facing_rightBracket hk,
      ← ih (List.forall_mem_cons.1 hts).2, resume_facing_hasExpr hb']
  | case11 e bare t ts hb l lists hc hr =>
    rw [resume_facing_hasExpr hb, closeLists_facing_other hc hr (List.forall_mem_cons.1 hts).1]
    rfl

end

end Cursor

/-! ## The same answers -/

namespace Parser

def cursor (p : Parser) : Cursor := .facing p.text p.rest

theorem cursor_ofText (text : String) : (ofText text).cursor = .ofText text := by
  unfold cursor ofText Cursor.ofText Cursor.facing tokenize
  cases Token.scan 0 text.toList <;> rfl

section
variable {p : Parser}

theorem cursor_take (hp : ∀ t ∈ p.rest, t.kind ≠ .finish) (kind : TokenKind) :
    p.cursor.take kind = ((p.take kind).1.mapError .mismatch, (p.take kind).2.cursor) := by
  obtain ⟨text, ts⟩ := p
  unfold take cursor
  by_cases hk : (Parser.current ⟨text, ts⟩).kind = kind
  · rw [if_pos hk]
    cases ts with
    | nil =>
      subst hk
      exact Cursor.take_facing_finish
    | cons t ts =>
      have hne : kind ≠ .finish := hk ▸ hp t (List.mem_cons_self ..)
      exact Cursor.take_facing hk hne
  · rw [if_neg hk]
    exact Cursor.take_facing_mismatch hk

theorem cursor_typeExpr (hp : ∀ t ∈ p.rest, t.kind ≠ .finish) :
    p.cursor.typeExpr = (p.typeExpr.1.mapError .failure, p.typeExpr.2.cursor) := by
  have hread : p.cursor.typeExpr = Cursor.reads p.text .needsName [] p.rest :=
    Cursor.resume_facing hp .needsName []
  rw [hread, Cursor.reads, typeExpr]
  rcases readExpr p.text.length .needsName [] p.rest with ⟨_ | e, rest⟩ <;> rfl

theorem cursor_parse (hp : ∀ t ∈ p.rest, t.kind ≠ .finish) :
    p.cursor.parse = (p.parse.1.mapError .failure, p.parse.2.cursor) := by
  unfold Cursor.parse parse
  rw [cursor_typeExpr hp]
  rcases p.typeExpr with ⟨_ | e, p'⟩
  · rfl
  · have hcurrent : p'.cursor.current = p'.current := rfl
    simp only [mapError_ok, Cursor.Steps.andThen, hcurrent]
    cases p'.current.kind <;> rfl

/-- The machine and the parser answer every call alike, and end in the same place. -/
theorem cursor_call (hp : ∀ t ∈ p.rest, t.kind ≠ .finish) (call : Call) :
    p.cursor.call call = ((p.call call).1, (p.call call).2.cursor) := by
  cases call with
  | take kind =>
    rw [Cursor.call, cursor_take hp, Parser.call]
    cases (p.take kind).1 <;> rfl
  | typeExpr =>
    rw [Cursor.call, cursor_typeExpr hp, Parser.call]
    cases p.typeExpr.1 <;> rfl
  | parse =>
    rw [Cursor.call, cursor_parse hp, Parser.call]
    cases p.parse.1 <;> rfl

end

end Parser

end HierarchyLint
