import HierarchyLint.Expr.Parser
import HierarchyLint.Proofs.Expr.Postorder
import HierarchyLint.Proofs.Expr.Reading
import Mathlib.Data.List.Forall2

/-!
# Reading renamed tokens

Two texts may have tokens of the same kinds in the same order, where the names of the second are
the images of those of the first. Reading then takes the same steps in both, so it ends in the
renamed expression or with the same fault (`parse_renames`). Where the tokens stand does not
matter: `R` relates the indices of the one text to those of the other.
-/

namespace HierarchyLint

namespace TypeExpr

variable {f g : String → String}

def mapNames (f : String → String) : TypeExpr → TypeExpr :=
  foldTree fun e ps => node (f e.name) ps

theorem mapNames_node (n : String) (ps : List TypeExpr) :
    (node n ps).mapNames f = node (f n) (ps.map (mapNames f)) := by
  rw [mapNames, foldTree]
  rfl

theorem mapNames_leaf (n : String) : (leaf n).mapNames f = leaf (f n) := mapNames_node n []

theorem name_mapNames (e : TypeExpr) : (e.mapNames f).name = f e.name := by
  cases e
  rw [mapNames_node]
  rfl

theorem mapNames_mapNames (e : TypeExpr) :
    (e.mapNames f).mapNames g = e.mapNames fun n => g (f n) := by
  induction e using inductionOnParams with
  | node n ps ih =>
    rw [mapNames_node, mapNames_node, mapNames_node, List.map_map]
    exact congrArg _ (List.map_congr_left ih)

theorem lowered_eq_mapNames (e : TypeExpr) : e.lowered = e.mapNames Text.lower := by
  have hstep : lowerStep = foldStep fun e ps => node (Text.lower e.name) ps := rfl
  rw [lowered, hstep, foldl_postorder]
  rfl

end TypeExpr

open TypeExpr

/-! ## Related states of two readers -/

section
variable (f : String → String) (R : Nat → Nat → Prop)

/-- The second token has the kind of the first one and the image of its name. -/
structure Token.Renames (t u : Token) : Prop where
  kind : u.kind = t.kind
  text : t.kind = .name → u.text = f t.text
  index : R t.index u.index

/-- The second list was opened by the image of the name that opened the first one, and holds the
images of its parameters. -/
structure OpenList.Renames (l m : OpenList) : Prop where
  name : m.name = f l.name
  bracket : R l.bracket m.bracket
  params : m.params = l.params.map (mapNames f)

def ReadState.mapNames : ReadState → ReadState
  | needsName => needsName
  | hasExpr e bare => hasExpr (e.mapNames f) bare

/-- The answers of two readers, with the tokens that they leave. -/
inductive ReadRenames :
    Except ReadFailure TypeExpr × List Token → Except ReadFailure TypeExpr × List Token → Prop where
  | ok {e : TypeExpr} {ts us : List Token} :
      List.Forall₂ (Token.Renames f R) ts us → ReadRenames (.ok e, ts) (.ok (e.mapNames f), us)
  | error {fault : ParseFault} {i j : Nat} {ts us : List Token} :
      R i j → List.Forall₂ (Token.Renames f R) ts us →
      ReadRenames (.error ⟨fault, i⟩, ts) (.error ⟨fault, j⟩, us)

/-- The answers for two texts. -/
inductive ParseRenames (text text' : String) :
    Except ParseError TypeExpr → Except ParseError TypeExpr → Prop where
  | ok (e : TypeExpr) : ParseRenames text text' (.ok e) (.ok (e.mapNames f))
  | error {i j : Nat} (fault : ParseFault) :
      R i j → ParseRenames text text' (.error ⟨fault, text, i⟩) (.error ⟨fault, text', j⟩)

end

/-! ## Reading -/

section
variable {f : String → String} {R : Nat → Nat → Prop} {l m : OpenList} {lists lists' : List OpenList}
  {t u : Token} {ts us : List Token} {e : TypeExpr}

theorem OpenList.Renames.add (h : OpenList.Renames f R l m) (e : TypeExpr) :
    OpenList.Renames f R (l.add e) (m.add (e.mapNames f)) where
  name := h.name
  bracket := h.bracket
  params := by
    show e.mapNames f :: m.params = (e :: l.params).map (TypeExpr.mapNames f)
    rw [h.params, List.map_cons]

theorem OpenList.Renames.close (h : OpenList.Renames f R l m) :
    m.close = l.close.mapNames f := by
  rw [OpenList.close, OpenList.close, mapNames_node, h.name, h.params, List.map_reverse]

theorem readExpr_renames {size size' : Nat} (hsize : R size size') (st : ReadState)
    (hts : List.Forall₂ (Token.Renames f R) ts us)
    (hlists : List.Forall₂ (OpenList.Renames f R) lists lists') :
    ReadRenames f R (readExpr size st lists ts) (readExpr size' (st.mapNames f) lists' us) := by
  fun_induction readExpr size st lists ts generalizing us lists' with
  | case1 =>
    cases hts; cases hlists
    exact .error hsize .nil
  | case2 l lists =>
    cases hts
    cases hlists with
    | cons hl _ => exact .error hl.bracket .nil
  | case3 lists t ts hk ih =>
    cases hts with
    | cons ht hts =>
      have hk' := ht.kind.trans hk
      rw [ReadState.mapNames, readExpr_name hk', ht.text hk, ← mapNames_leaf]
      exact ih hts hlists
  | case4 lists t ts hk =>
    cases hts with
    | @cons _ u _ us ht hts =>
      have hk' : u.kind ≠ .name := ht.kind ▸ hk
      have hstop : readExpr size' .needsName lists' (u :: us)
          = (.error ⟨.missingName, u.index⟩, u :: us) := by
        cases lists' <;> simp [readExpr, hk']
      rw [ReadState.mapNames, hstop]
      exact .error ht.index (.cons ht hts)
  | case5 e bare =>
    cases hts; cases hlists
    exact .ok .nil
  | case6 e bare l lists =>
    cases hts
    cases hlists with
    | cons hl _ => exact .error hl.bracket .nil
  | case7 e bare lists t ts hk ih =>
    obtain ⟨rfl, hk⟩ := hk
    cases hts with
    | cons ht hts =>
      rw [ReadState.mapNames, readExpr_leftBracket (ht.kind.trans hk), name_mapNames]
      exact ih hts (.cons ⟨rfl, ht.index, rfl⟩ hlists)
  | case8 e bare t ts hk =>
    cases hlists
    cases hts with
    | @cons _ u _ us ht hts =>
      have hk' : ¬(bare = true ∧ u.kind = .leftBracket) := ht.kind ▸ hk
      have hstop : readExpr size' (.hasExpr (e.mapNames f) bare) [] (u :: us)
          = (.ok (e.mapNames f), u :: us) := by
        simp [readExpr, hk']
      rw [ReadState.mapNames, hstop]
      exact .ok (.cons ht hts)
  | case9 e bare t ts hb l lists hk ih =>
    cases hts with
    | cons ht hts =>
      cases hlists with
      | cons hl hlists =>
        rw [ReadState.mapNames, readExpr_comma (ht.kind.trans hk)]
        exact ih hts (.cons (hl.add e) hlists)
  | case10 e bare t ts hb l lists hc hk ih =>
    cases hts with
    | cons ht hts =>
      cases hlists with
      | cons hl hlists =>
        rw [ReadState.mapNames, readExpr_rightBracket (ht.kind.trans hk), (hl.add e).close]
        exact ih hts hlists
  | case11 e bare t ts hb l lists hc hr =>
    cases hts with
    | @cons _ u _ us ht hts =>
      cases hlists with
      | @cons _ m _ lists' hl hlists =>
        have hb' : ¬(bare = true ∧ u.kind = .leftBracket) := ht.kind ▸ hb
        have hc' : u.kind ≠ .comma := ht.kind ▸ hc
        have hr' : u.kind ≠ .rightBracket := ht.kind ▸ hr
        have hstop : readExpr size' (.hasExpr (e.mapNames f) bare) (m :: lists') (u :: us)
            = (.error ⟨.extraCharacters, u.index⟩, u :: us) := by
          simp [readExpr, hb', hc', hr']
        rw [ReadState.mapNames, hstop]
        exact .error ht.index (.cons ht hts)

/-- Two texts with the same tokens, but for names and indices, parse alike. -/
theorem parse_renames {text text' : String} (hsize : R text.length text'.length)
    (hts : List.Forall₂ (Token.Renames f R) (Token.scan 0 text.toList)
      (Token.scan 0 text'.toList)) :
    ParseRenames f R text text' (TypeExpr.parse text) (TypeExpr.parse text') := by
  have hread := readExpr_renames hsize .needsName hts .nil
  rw [ReadState.mapNames] at hread
  unfold TypeExpr.parse Parser.parse Parser.typeExpr Parser.ofText
  dsimp only
  generalize readExpr text.length .needsName [] (Token.scan 0 text.toList) = answer at hread ⊢
  generalize readExpr text'.length .needsName [] (Token.scan 0 text'.toList) = answer' at hread ⊢
  cases hread with
  | error hij _ => exact .error _ hij
  | @ok e ts us hrest =>
    have hmap (x : TypeExpr) (p : ReadFailure → ParseError) : (Except.ok x).mapError p = .ok x := rfl
    simp only [hmap]
    cases hrest with
    | nil => exact .ok e
    | @cons t u _ _ ht _ =>
      simp only [Parser.current, List.headD_cons, ht.kind]
      split
      · exact .ok e
      · exact .error _ ht.index
      · exact .error _ ht.index

end

end HierarchyLint
