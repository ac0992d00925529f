import HierarchyLint.Proofs.Expr.Renaming

/-!
# Positions in an expression

A position is the path from the front of an expression to one of its subexpressions, by the
numbers of the parameters on the way (`at?`), so that subexpressions that look alike are told
apart. `positions` lists the positions as `postorder` goes through them: each one behind those
below it, and what is below an earlier parameter in front of what is below a later one (`Precedes`).

Where a computation along that list comes to a subexpression, the values of its parameters lie on
top of those kept (`Supplied`), so no step takes more values than there are, and one value is left
at the end. Rendering and lowering are two such computations, and each has the result
of a recursion on the expression.
-/

namespace HierarchyLint.TypeExpr

def at? (e : TypeExpr) : List Nat → Option TypeExpr
  | [] => some e
  | i :: path => e.params[i]?.bind fun p => p.at? path

mutual

/-- The positions in the expression, each behind those below it. -/
def positions : TypeExpr → List (List Nat)
  | node _ ps => paramPositions ps ++ [[]]

/-- The positions below the parameters, each beginning with the number of its parameter. -/
def paramPositions : List TypeExpr → List (List Nat)
  | [] => []
  | p :: ps =>
    (positions p).map (0 :: ·) ++ (paramPositions ps).map (List.modifyHead (· + 1))

end

/-- The order of positions: what is below a position precedes it, and so does what is below an
earlier parameter. -/
inductive Precedes : List Nat → List Nat → Prop where
  | beneath {i : Nat} {path : List Nat} : Precedes (i :: path) []
  | earlier {i j : Nat} {path path' : List Nat} : i < j → Precedes (i :: path) (j :: path')
  | within {i : Nat} {path path' : List Nat} :
      Precedes path path' → Precedes (i :: path) (i :: path')

/-- The rendering by recursion: a name alone, or in front of the renderings of its parameters. -/
def spelling : TypeExpr → String
  | node n ps =>
    if ps.isEmpty then n else n ++ "[" ++ ", ".intercalate (ps.map spelling) ++ "]"

/-! ## Positions -/

section
variable {e p : TypeExpr} {ps : List TypeExpr} {n : String} {path path' : List Nat}

theorem mem_paramPositions :
    path ∈ paramPositions ps ↔ ∃ i q p, path = i :: q ∧ ps[i]? = some p ∧ q ∈ positions p := by
  induction ps generalizing path with
  | nil => simp [paramPositions]
  | cons p ps ih =>
    rw [paramPositions, List.mem_append, List.mem_map, List.mem_map]
    constructor
    · rintro (⟨q, hq, rfl⟩ | ⟨path', hpath', rfl⟩)
      · exact ⟨0, q, p, rfl, rfl, hq⟩
      · obtain ⟨i, q, r, rfl, hr, hq⟩ := ih.1 hpath'
        exact ⟨i + 1, q, r, rfl, hr, hq⟩
    · rintro ⟨i, q, r, rfl, hr, hq⟩
      cases i with
      | zero =>
        obtain rfl := Option.some.inj hr
        exact .inl ⟨q, hq, rfl⟩
      | succ i => exact .inr ⟨i :: q, ih.2 ⟨i, q, r, rfl, hr, hq⟩, rfl⟩

theorem mem_positions_iff : path ∈ e.positions ↔ (e.at? path).isSome := by
  induction path generalizing e with
  | nil =>
    cases e
    simp [positions, at?]
  | cons i path ih =>
    obtain ⟨n, ps⟩ := e
    rw [positions, List.mem_append, List.mem_singleton, mem_paramPositions, at?, params]
    constructor
    · rintro (⟨j, q, p, hpath, hp, hq⟩ | hnil)
      · cases hpath
        rw [hp]
        exact ih.1 hq
      · cases hnil
    · intro h
      cases hp : ps[i]? with
      | none =>
        rw [hp] at h
        cases h
      | some p =>
        rw [hp] at h
        exact .inl ⟨i, path, p, rfl, hp, ih.2 h⟩

theorem map_at?_paramPositions (n : String)
    (hps : ∀ p ∈ ps, p.positions.map p.at? = p.postorder.map some) :
    (paramPositions ps).map (node n ps).at? = (ps.flatMap postorder).map some := by
  induction ps with
  | nil => rfl
  | cons p ps ih =>
    obtain ⟨hp, hps⟩ := List.forall_mem_cons.1 hps
    have hlater : ∀ path ∈ paramPositions ps,
        (node n (p :: ps)).at? (path.modifyHead (· + 1)) = (node n ps).at? path := by
      intro path hpath
      obtain ⟨i, q, r, rfl, -, -⟩ := mem_paramPositions.1 hpath
      rfl
    rw [paramPositions, List.map_append, List.map_map, List.map_map, List.flatMap_cons,
      List.map_append, ← hp, ← ih hps]
    exact congrArg _ (List.map_congr_left hlater)

/-- The subexpressions at the positions are those that `postorder` lists, in the same order. -/
theorem map_at?_positions (e : TypeExpr) : e.positions.map e.at? = e.postorder.map some := by
  induction e using inductionOnParams with
  | node n ps ih =>
    rw [positions, postorder_node, List.map_append, List.map_append, map_at?_paramPositions n ih]
    rfl

theorem Precedes.irrefl : ¬ Precedes path path := by
  induction path with
  | nil => nofun
  | cons i path ih =>
    intro h
    cases h with
    | earlier hlt => exact Nat.lt_irrefl i hlt
    | within h => exact ih h

theorem Precedes.modifyHead (h : Precedes path path') :
    Precedes (path.modifyHead (· + 1)) (path'.modifyHead (· + 1)) := by
  cases h with
  | beneath => exact .beneath
  | earlier hlt => exact .earlier (Nat.succ_lt_succ hlt)
  | within h => exact .within h

theorem pairwise_paramPositions (hps : ∀ p ∈ ps, p.positions.Pairwise Precedes) :
    (paramPositions ps).Pairwise Precedes := by
  induction ps with
  | nil => exact .nil
  | cons p ps ih =>
    obtain ⟨hp, hps⟩ := List.forall_mem_cons.1 hps
    rw [paramPositions, List.pairwise_append, List.pairwise_map, List.pairwise_map]
    refine ⟨hp.imp .within, (ih hps).imp .modifyHead, ?_⟩
    intro path hpath path' hpath'
    obtain ⟨q, -, rfl⟩ := List.mem_map.1 hpath
    obtain ⟨later, hlater, rfl⟩ := List.mem_map.1 hpath'
    obtain ⟨i, r, s, rfl, -, -⟩ := mem_paramPositions.1 hlater
    exact .earlier (Nat.succ_pos i)

theorem pairwise_positions (e : TypeExpr) : e.positions.Pairwise Precedes := by
  induction e using inductionOnParams with
  | node n ps ih =>
    rw [positions, List.pairwise_append]
    refine ⟨pairwise_paramPositions ih, List.pairwise_singleton .., ?_⟩
    intro path hpath path' hpath'
    obtain rfl := List.mem_singleton.1 hpath'
    obtain ⟨i, q, r, rfl, -, -⟩ := mem_paramPositions.1 hpath
    exact .beneath

theorem nodup_positions (e : TypeExpr) : e.positions.Nodup := by
  refine (pairwise_positions e).imp ?_
  rintro path path' h rfl
  exact Precedes.irrefl h

end

/-! ## The values kept -/

/-- Each step of the computation along the list finds the values of the parameters on top of those
kept. -/
def Supplied {α : Type} (combine : TypeExpr → List α → α) : List α → List TypeExpr → Prop
  | _, [] => True
  | done, x :: xs =>
    (x.params.map (foldTree combine)).reverse <+: done ∧
      Supplied combine (foldStep combine done x) xs

section
variable {α : Type} {combine : TypeExpr → List α → α} {done : List α} {es xs ys : List TypeExpr}
  {x : TypeExpr}

theorem supplied_append_iff :
    Supplied combine done (xs ++ ys) ↔
      Supplied combine done xs ∧ Supplied combine (xs.foldl (foldStep combine) done) ys := by
  induction xs generalizing done with
  | nil => simp [Supplied]
  | cons x xs ih => rw [List.cons_append, Supplied, Supplied, ih, List.foldl_cons, and_assoc]

theorem supplied_flatMap_postorder (hes : ∀ e ∈ es, ∀ done, Supplied combine done e.postorder)
    (done : List α) : Supplied combine done (es.flatMap postorder) := by
  induction es generalizing done with
  | nil => trivial
  | cons e es ih =>
    obtain ⟨he, hes⟩ := List.forall_mem_cons.1 hes
    rw [List.flatMap_cons, supplied_append_iff]
    exact ⟨he done, ih hes _⟩

/-- The computation along the subexpressions of an expression is supplied, whatever is kept. -/
theorem supplied_postorder (combine : TypeExpr → List α → α) (e : TypeExpr) (done : List α) :
    Supplied combine done e.postorder := by
  induction e using inductionOnParams generalizing done with
  | node n ps ih =>
    rw [postorder_node, supplied_append_iff]
    refine ⟨supplied_flatMap_postorder ih done, ?_, trivial⟩
    rw [foldl_flatMap_postorder fun e _ done => foldl_postorder combine e done]
    exact List.prefix_append ..

/-- The values that a step takes are there, and they are those of the parameters in their order. -/
theorem Supplied.take_foldl (h : Supplied combine done (xs ++ x :: ys)) :
    x.params.length ≤ (xs.foldl (foldStep combine) done).length ∧
      ((xs.foldl (foldStep combine) done).take x.params.length).reverse
        = x.params.map (foldTree combine) := by
  obtain ⟨below, hbelow⟩ := (supplied_append_iff.1 h).2.1
  rw [← hbelow]
  constructor
  · simp
  · rw [List.take_left' (by simp), List.reverse_reverse]

end

/-! ## Rendering and lowering by recursion -/

theorem render_eq_spelling (e : TypeExpr) : e.render = e.spelling := by
  induction e using inductionOnParams with
  | node n ps ih =>
    rw [render_node, spelling, List.map_congr_left ih]
    simp only [Text.bracketed, String.append_assoc]

theorem at?_mapNames (f : String → String) (e : TypeExpr) (path : List Nat) :
    (e.mapNames f).at? path = (e.at? path).map (mapNames f) := by
  induction path generalizing e with
  | nil => rfl
  | cons i path ih =>
    obtain ⟨n, ps⟩ := e
    rw [mapNames_node, at?, at?, params, params, List.getElem?_map]
    cases ps[i]? with
    | none => rfl
    | some p => exact ih p

theorem renderStep_eq_foldStep : renderStep = foldStep combineTexts := rfl

theorem lowerStep_eq_foldStep :
    lowerStep = foldStep fun e ps => node (Text.lower e.name) ps := rfl

theorem foldTree_combineTexts : foldTree combineTexts = render :=
  funext fun e => (render_eq_foldTree e).symm

theorem foldTree_lower : foldTree (fun e ps => node (Text.lower e.name) ps) = lowered :=
  funext fun e => (lowered_eq_mapNames e).symm

/-- The list of subexpressions goes through the positions of the expression, through each of them
once, behind all that is below it and from the first parameter to the last. The computations along
that list render and lower the expression as the recursions do: each step finds the results of the
parameters on top of those kept, and the result of the expression is the only one left. -/
theorem postorder_render_lowered (e : TypeExpr) :
    (e.postorder.map some = e.positions.map e.at? ∧
      (∀ path, path ∈ e.positions ↔ (e.at? path).isSome) ∧ e.positions.Nodup ∧
      e.positions.Pairwise Precedes) ∧
    e.render = e.spelling ∧
    (e.lowered = e.mapNames Text.lower ∧
      ∀ path, e.lowered.at? path = (e.at? path).map lowered) ∧
    (∀ before x after, e.postorder = before ++ x :: after →
      (x.params.length ≤ (before.foldl renderStep []).length ∧
        ((before.foldl renderStep []).take x.params.length).reverse = x.params.map render) ∧
      (x.params.length ≤ (before.foldl lowerStep []).length ∧
        ((before.foldl lowerStep []).take x.params.length).reverse = x.params.map lowered)) ∧
    e.postorder.foldl renderStep [] = [e.render] ∧
    e.postorder.foldl lowerStep [] = [e.lowered] := by
  refine ⟨⟨?_, ?_, nodup_positions e, pairwise_positions e⟩, render_eq_spelling e, ⟨?_, ?_⟩, ?_,
    ?_, ?_⟩
  · exact (map_at?_positions e).symm
  · exact fun path => mem_positions_iff
  · exact lowered_eq_mapNames e
  · intro path
    have hlowered : lowered = mapNames Text.lower := funext lowered_eq_mapNames
    rw [hlowered, at?_mapNames]
  · intro before x after h
    constructor
    · have hsupplied := supplied_postorder combineTexts e []
      rw [h] at hsupplied
      rw [renderStep_eq_foldStep, ← foldTree_combineTexts]
      exact hsupplied.take_foldl
    · have hsupplied := supplied_postorder (fun e ps => node (Text.lower e.name) ps) e []
      rw [h] at hsupplied
      rw [lowerStep_eq_foldStep, ← foldTree_lower]
      exact hsupplied.take_foldl
  · rw [renderStep_eq_foldStep, foldl_postorder, foldTree_combineTexts]
  · rw [lowerStep_eq_foldStep, foldl_postorder, foldTree_lower]

end HierarchyLint.TypeExpr
