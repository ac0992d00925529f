import HierarchyLint.Expr.Basic

/-!
# Values in postorder

The list `postorder` puts the parameters of an expression, one after another, in front of it
(`postorder_node`). A computation along that list keeps the values that no parent has taken yet,
the latest first: each step of `foldStep` replaces the values of the parameters by the value of
their parent. Main statement: what the steps compute is the value of `foldTree`, the recursion on
the expression (`foldl_postorder`). Rendering is such a computation, which gives its rule for an
expression with parameters (`render_node`).
-/

namespace HierarchyLint.TypeExpr

variable {α : Type}

/-- What holds of an expression as soon as it holds of its parameters holds of every one. -/
@[elab_as_elim]
theorem inductionOnParams {P : TypeExpr → Prop} (node : ∀ n ps, (∀ p ∈ ps, P p) → P (.node n ps)) :
    ∀ e, P e
  | .node n ps => node n ps fun p _ => inductionOnParams node p

/-! ## The list of subexpressions -/

theorem visits_append (pending later : List Visit) :
    visits (pending ++ later) = visits pending ++ visits later := by
  fun_induction visits pending with
  | case1 => rfl
  | case2 e pending ih => rw [List.cons_append, visits, ih, List.cons_append]
  | case3 e pending ih =>
    have hparams : e.params.map Visit.enter ++ .leave e :: (pending ++ later)
        = (e.params.map Visit.enter ++ .leave e :: pending) ++ later := by simp
    rw [List.cons_append, visits, hparams, ih]

theorem visits_map_enter (es : List TypeExpr) :
    visits (es.map .enter) = es.flatMap postorder := by
  induction es with
  | nil => rw [List.map_nil, visits, List.flatMap_nil]
  | cons e es ih =>
    rw [List.map_cons, List.flatMap_cons, ← List.singleton_append, visits_append, ih]
    rfl

theorem postorder_node (n : String) (ps : List TypeExpr) :
    (node n ps).postorder = ps.flatMap postorder ++ [node n ps] := by
  rw [postorder, visits, visits_append, params, visits_map_enter, visits, visits]

/-! ## Computing along the list -/

/-- Replaces the values of the parameters of `e`, which lie on top of `done`, by its own. -/
def foldStep (combine : TypeExpr → List α → α) (done : List α) (e : TypeExpr) : List α :=
  combine e (done.take e.params.length).reverse :: done.drop e.params.length

/-- The value of an expression from the values of its parameters. -/
def foldTree (combine : TypeExpr → List α → α) : TypeExpr → α
  | node n ps => combine (node n ps) (ps.map (foldTree combine))

theorem foldl_flatMap_postorder {combine : TypeExpr → List α → α} {es : List TypeExpr}
    (hes : ∀ e ∈ es, ∀ done,
      e.postorder.foldl (foldStep combine) done = foldTree combine e :: done) (done : List α) :
    (es.flatMap postorder).foldl (foldStep combine) done
      = (es.map (foldTree combine)).reverse ++ done := by
  induction es generalizing done with
  | nil => rfl
  | cons e es ih =>
    obtain ⟨he, hes⟩ := List.forall_mem_cons.1 hes
    rw [List.flatMap_cons, List.foldl_append, he, ih hes, List.map_cons, List.reverse_cons,
      List.append_assoc, List.singleton_append]

/-- The steps along the list of subexpressions put the value of the expression on top. -/
theorem foldl_postorder (combine : TypeExpr → List α → α) (e : TypeExpr) (done : List α) :
    e.postorder.foldl (foldStep combine) done = foldTree combine e :: done := by
  induction e using inductionOnParams generalizing done with
  | node n ps ih =>
    rw [postorder_node, List.foldl_append, foldl_flatMap_postorder ih, foldTree]
    simp [foldStep, params]

/-! ## Rendering -/

def combineTexts (e : TypeExpr) (texts : List String) : String :=
  if e.params.isEmpty then e.name else e.name ++ Text.bracketed texts

theorem render_eq_foldTree (e : TypeExpr) : e.render = foldTree combineTexts e := by
  have hstep : renderStep = foldStep combineTexts := rfl
  rw [render, hstep, foldl_postorder]
  rfl

theorem render_node (n : String) (ps : List TypeExpr) :
    (node n ps).render = if ps.isEmpty then n else n ++ Text.bracketed (ps.map render) := by
  have hmap : ps.map (foldTree combineTexts) = ps.map render :=
    List.map_congr_left fun p _ => (render_eq_foldTree p).symm
  rw [render_eq_foldTree, foldTree, hmap]
  rfl

end HierarchyLint.TypeExpr
