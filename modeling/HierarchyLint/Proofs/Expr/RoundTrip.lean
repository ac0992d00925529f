import HierarchyLint.Proofs.Expr.Postorder
import HierarchyLint.Proofs.Expr.Reading

/-!
# Reading what was rendered

The rendering of an expression spells it as soon as all its names are names of the grammar
(`spells_render`): each name ends where a bracket or a comma follows it, and the blank behind a
comma makes no token. So rendering and parsing are inverse to each other on these expressions.
Main statement: on no others, because a text spells no expression with any other name.
-/

namespace HierarchyLint

open Token (Lexed)

namespace TypeExpr

/-- All names in the expression are names of the grammar. -/
def WellNamed (e : TypeExpr) : Prop := ∀ n, HasName e n → IsName n.toList

theorem wellNamed_node_iff {n : String} {ps : List TypeExpr} :
    WellNamed (node n ps) ↔ IsName n.toList ∧ ∀ p ∈ ps, WellNamed p := by
  constructor
  · intro h
    exact ⟨h n .front, fun p hp m hm => h m (.param hp hm)⟩
  · rintro ⟨hn, hps⟩ m hm
    cases hm with
    | front => exact hn
    | param hp hm => exact hps _ hp m hm

theorem Spells.wellNamed {text : String} {e : TypeExpr} (h : Spells text e) : WellNamed e :=
  fun _ hn => h.isName hn

/-! ## The tokens of a rendering -/

theorem toList_bracketed (items : List String) :
    (Text.bracketed items).toList = '[' :: ((", ".intercalate items).toList ++ [']']) := by
  simp [Text.bracketed]

/-- Wherever the text stands, its tokens derive from the expression. -/
def Spelled (text : String) (e : TypeExpr) : Prop :=
  ∀ i, ∃ ts, Lexed i text.toList ts ∧ Derives ts e

theorem derivesList_intercalate {es : List TypeExpr} (hne : es ≠ [])
    (hes : ∀ e ∈ es, Spelled e.render e) (i : Nat) :
    ∃ ts, Lexed i (", ".intercalate (es.map render)).toList ts ∧ DerivesList ts es := by
  induction es generalizing i with
  | nil => exact absurd rfl hne
  | cons e es ih =>
    obtain ⟨he, hes⟩ := List.forall_mem_cons.1 hes
    obtain ⟨ts, hts, hd⟩ := he i
    cases es with
    | nil =>
      rw [List.map_singleton, String.intercalate_singleton]
      exact ⟨ts, hts, .one hd⟩
    | cons f es =>
      obtain ⟨us, hus, hds⟩ := ih (List.cons_ne_nil f es) hes (i + e.render.toList.length + 1 + 1)
      let c : Token := ⟨.comma, ",", i + e.render.toList.length⟩
      have hcomma : Lexed c.index
          (',' :: ' ' :: (", ".intercalate ((f :: es).map render)).toList) (c :: us) :=
        .comma (.blank Text.isBlank_space hus)
      refine ⟨ts ++ c :: us, ?_, .more hd rfl hds⟩
      rw [List.map_cons, List.map_cons, String.intercalate_cons_cons, ← List.map_cons]
      simp only [String.toList_append, List.append_assoc]
      refine hts.append ?_ hcomma
      intro c _ d hd
      cases hd
      exact fun h => not_isName_comma h.2

theorem spelled_render {e : TypeExpr} (h : WellNamed e) : Spelled e.render e := by
  induction e using inductionOnParams with
  | node n ps ih =>
    intro i
    obtain ⟨hn, hps⟩ := wellNamed_node_iff.1 h
    rw [render_node]
    cases ps with
    | nil =>
      refine ⟨[⟨.name, n, i⟩], ?_, .bare rfl⟩
      have := Lexed.name (i := i) hn (by simp) .finish
      simpa using this
    | cons p ps =>
      have hparams : ∀ e ∈ p :: ps, Spelled e.render e := fun e he => ih e he (hps e he)
      let body := (", ".intercalate ((p :: ps).map render)).toList
      obtain ⟨ts, hts, hd⟩ := derivesList_intercalate (List.cons_ne_nil p ps) hparams
        (i + n.toList.length + 1)
      let l : Token := ⟨.leftBracket, "[", i + n.toList.length⟩
      let r : Token := ⟨.rightBracket, "]", l.index + 1 + body.length⟩
      have hclose : Lexed (l.index + 1) (body ++ [']']) (ts ++ [r]) := by
        refine hts.append ?_ (.rightBracket .finish)
        intro c _ d hd
        cases hd
        exact fun h => not_isName_rightBracket h.2
      have hopen : Lexed l.index ('[' :: (body ++ [']'])) (l :: (ts ++ [r])) := .leftBracket hclose
      have hwhole := Lexed.name hn (by simpa using not_isName_leftBracket) hopen
      rw [String.ofList_toList] at hwhole
      refine ⟨⟨.name, n, i⟩ :: l :: (ts ++ [r]), ?_, .list rfl rfl rfl hd⟩
      rw [if_neg (by simp), String.toList_append, toList_bracketed]
      exact hwhole

theorem spells_render {e : TypeExpr} (h : WellNamed e) : Spells e.render e := spelled_render h 0

theorem parse_render {e : TypeExpr} (h : WellNamed e) : parse e.render = .ok e :=
  parse_eq_ok_iff_spells.2 (spells_render h)

/-- Rendering is undone by parsing exactly if all names of the expression are names of the grammar.
So no two such expressions have one rendering, and whatever was parsed is parsed again from its
rendering, which is then rendered as before. -/
theorem parse_render_iff_wellNamed :
    (∀ e, parse e.render = .ok e ↔ ∀ n, HasName e n → IsName n.toList) ∧
    (∀ e f, WellNamed e → WellNamed f → e.render = f.render → e = f) ∧
    (∀ text e, parse text = .ok e →
      ∃ f, parse e.render = .ok f ∧ f = e ∧ f.render = e.render) := by
  refine ⟨fun e => ⟨fun h => ?_, parse_render⟩, fun e f he hf h => ?_, fun text e h => ?_⟩
  · exact (parse_eq_ok_iff_spells.1 h).wellNamed
  · have hok := parse_render he
    rw [h, parse_render hf] at hok
    cases hok
    rfl
  · exact ⟨e, parse_render (parse_eq_ok_iff_spells.1 h).wellNamed, rfl, rfl⟩

/-- A name with brackets in it is read back as another expression. -/
example : (parse (leaf "a[b]").render).toOption = some (node "a" [leaf "b"]) := by decide +kernel

end TypeExpr

end HierarchyLint
