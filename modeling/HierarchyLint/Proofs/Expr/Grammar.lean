import HierarchyLint.Expr.Basic
import HierarchyLint.Proofs.Expr.Lexical

/-!
# The grammar of type expressions

    expr := name ( '[' expr ( ',' expr )* ']' )?

`Derives ts e` is the grammar over tokens, with the expression as the tree of the derivation: a
name stands for itself, and a name with a list has the expressions of the list as its parameters.
A text spells an expression if its tokens derive from it (`Spells`). Nothing here refers to how a
text is scanned or read.
-/

namespace HierarchyLint

namespace TypeExpr

mutual

/-- The tokens derive from `expr`, and `e` is the tree of the derivation. -/
inductive Derives : List Token → TypeExpr → Prop where
  | bare {t : Token} : t.kind = .name → Derives [t] (leaf t.text)
  | list {t l r : Token} {ts : List Token} {es : List TypeExpr} :
      t.kind = .name → l.kind = .leftBracket → r.kind = .rightBracket → DerivesList ts es →
      Derives (t :: l :: (ts ++ [r])) (node t.text es)

/-- The tokens derive from `expr ( ',' expr )*`. -/
inductive DerivesList : List Token → List TypeExpr → Prop where
  | one {ts : List Token} {e : TypeExpr} : Derives ts e → DerivesList ts [e]
  | more {ts us : List Token} {c : Token} {e : TypeExpr} {es : List TypeExpr} :
      Derives ts e → c.kind = .comma → DerivesList us es →
      DerivesList (ts ++ c :: us) (e :: es)

end

/-- The text is a sentence of the grammar, with the tree `e`. -/
def Spells (text : String) (e : TypeExpr) : Prop :=
  ∃ ts, Token.Lexed 0 text.toList ts ∧ Derives ts e

/-- The name occurs in the expression, at the front or in a parameter. -/
inductive HasName : TypeExpr → String → Prop where
  | front {n : String} {ps : List TypeExpr} : HasName (node n ps) n
  | param {n m : String} {ps : List TypeExpr} {p : TypeExpr} :
      p ∈ ps → HasName p m → HasName (node n ps) m

theorem hasName_node_iff {n m : String} {ps : List TypeExpr} :
    HasName (node n ps) m ↔ m = n ∨ ∃ p ∈ ps, HasName p m := by
  constructor
  · intro h
    cases h with
    | front => exact .inl rfl
    | param hp h => exact .inr ⟨_, hp, h⟩
  · rintro (rfl | ⟨p, hp, h⟩)
    · exact .front
    · exact .param hp h

/-! ## The names of a derivation -/

mutual

theorem Derives.hasName {ts : List Token} {e : TypeExpr} {m : String} (h : Derives ts e)
    (hm : HasName e m) : ∃ t ∈ ts, t.kind = .name ∧ t.text = m := by
  cases h with
  | @bare t ht =>
    rcases hasName_node_iff.1 hm with rfl | ⟨p, hp, _⟩
    · exact ⟨t, List.mem_singleton.2 rfl, ht, rfl⟩
    · cases hp
  | @list t l r ts es ht _ _ hes =>
    rcases hasName_node_iff.1 hm with rfl | ⟨p, hp, hm⟩
    · exact ⟨t, List.mem_cons_self .., ht, rfl⟩
    · obtain ⟨u, hu, hk⟩ := hes.hasName hp hm
      exact ⟨u, by simp [hu], hk⟩

theorem DerivesList.hasName {ts : List Token} {es : List TypeExpr} {p : TypeExpr} {m : String}
    (h : DerivesList ts es) (hp : p ∈ es) (hm : HasName p m) :
    ∃ t ∈ ts, t.kind = .name ∧ t.text = m := by
  cases h with
  | one he =>
    obtain rfl := List.mem_singleton.1 hp
    exact he.hasName hm
  | more he _ hes =>
    rcases List.mem_cons.1 hp with rfl | hp
    · obtain ⟨u, hu, hk⟩ := he.hasName hm
      exact ⟨u, List.mem_append_left _ hu, hk⟩
    · obtain ⟨u, hu, hk⟩ := hes.hasName hp hm
      exact ⟨u, by simp [hu], hk⟩

end

theorem Spells.isName {text : String} {e : TypeExpr} (h : Spells text e) {m : String}
    (hm : HasName e m) : IsName m.toList := by
  obtain ⟨ts, hl, hd⟩ := h
  obtain ⟨t, ht, hk, rfl⟩ := hd.hasName hm
  exact hl.isName_text t ht hk

end TypeExpr

end HierarchyLint
