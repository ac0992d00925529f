import HierarchyLint.Proofs.Graph.Walk

/-!
# The stack of a depth-first search

Both searches keep three lists side by side: the types of the current path, the texts of the edges
between them and, for each type, the edges it still has to examine. `Stack g F path texts pending`
says that they belong together: what a type has examined and what it has pending make up its list
of edges, and the edge examined last leads to the next type on the path. `F` is what a search
knows about the examined edges of a type. Each move of a search has one lemma here, and
`Stack.traces` reads a cycle off the stack when an edge leads back to the path.
-/

namespace HierarchyLint.Graph

variable {g k : Graph} {F F' : String → List Edge → Prop} {n : String} {e : Edge} {es : List Edge}
  {path texts : List String} {pending : List (List Edge)}

/-- The part of the stack below the type `n`, innermost type first. -/
inductive Frames (g : Graph) (F : String → List Edge → Prop) :
    String → List String → List String → List (List Edge) → Prop where
  | root (n : String) : Frames g F n [] [] []
  | push {m : String} {e : Edge} {done es : List Edge} {path texts : List String}
      {pending : List (List Edge)} :
      g.successors m = done ++ e :: es → F m done → Frames g F m path texts pending →
      Frames g F e.target (m :: path) (e.text :: texts) (es :: pending)

/-- The path, its texts and the pending edges of a search, innermost type first. -/
inductive Stack (g : Graph) (F : String → List Edge → Prop) :
    List String → List String → List (List Edge) → Prop where
  | empty : Stack g F [] [] []
  | top {n : String} {done es : List Edge} {path texts : List String}
      {pending : List (List Edge)} :
      g.successors n = done ++ es → F n done → Frames g F n path texts pending →
      Stack g F (n :: path) texts (es :: pending)

/-! ## Frames -/

theorem Frames.mono (h : Frames g F n path texts pending)
    (hF : ∀ m ∈ path, ∀ done, F m done → F' m done) : Frames g F' n path texts pending := by
  induction h with
  | root => exact .root _
  | push hs hd _ ih =>
    have hF' := List.forall_mem_cons.1 hF
    exact .push hs (hF'.1 _ hd) (ih hF'.2)

theorem Frames.length_texts (h : Frames g F n path texts pending) :
    texts.length = path.length := by
  induction h with
  | root => rfl
  | push _ _ _ ih => rw [List.length_cons, List.length_cons, ih]

/-- The path leads from each of its types to the current one, in every graph that has the edges
along it. -/
theorem Frames.walk (h : Frames g F n path texts pending)
    (hk : ∀ m done e es, g.successors m = done ++ e :: es → F m done → e ∈ k.successors m)
    {i : Nat} {q : String} (hi : (n :: path)[i]? = some q) :
    ∃ ws, k.Walk q ws n ∧ ws.map Edge.text = (texts.take i).reverse ∧
      ws.map Edge.target = ((n :: path).take i).reverse := by
  induction h generalizing i with
  | root n =>
    cases i with
    | zero => cases hi; exact ⟨[], .nil _, rfl, rfl⟩
    | succ i => simp at hi
  | @push m e done es path texts pending hs hd _ ih =>
    cases i with
    | zero => cases hi; exact ⟨[], .nil _, rfl, rfl⟩
    | succ i =>
      obtain ⟨ws, hw, htext, htarget⟩ := ih (i := i) (by simpa using hi)
      refine ⟨ws ++ [e], hw.snoc (hk m done e es hs hd), by simp [htext], ?_⟩
      rw [List.map_append, htarget, List.take_succ_cons, List.reverse_cons]
      rfl

/-! ## Moves -/

theorem Stack.start (hF : F n []) : Stack g F [n] [] [g.successors n] :=
  .top (List.nil_append _).symm hF (.root n)

theorem Stack.exists_top (h : Stack g F path texts (es :: pending)) :
    ∃ n below, path = n :: below := by
  cases h with
  | top => exact ⟨_, _, rfl⟩

theorem Stack.exists_done (h : Stack g F (n :: path) texts (es :: pending)) :
    ∃ done, g.successors n = done ++ es ∧ F n done := by
  cases h with
  | top hs hd _ => exact ⟨_, hs, hd⟩

theorem Stack.path_eq_nil (h : Stack g F path texts []) : path = [] := by
  cases h with
  | empty => rfl

theorem Stack.examine (h : Stack g F (n :: path) texts ((e :: es) :: pending))
    (hF : ∀ m ∈ path, ∀ done, F m done → F' m done)
    (he : ∀ done, g.successors n = done ++ e :: es → F n done → F' n (done ++ [e])) :
    Stack g F' (n :: path) texts (es :: pending) := by
  cases h with
  | @top _ done _ _ _ _ hs hd hf =>
    have hs' : g.successors n = (done ++ [e]) ++ es := by simp [hs]
    exact .top hs' (he done hs hd) (hf.mono hF)

theorem Stack.enter (h : Stack g F (n :: path) texts ((e :: es) :: pending))
    (hF : ∀ m ∈ n :: path, ∀ done, F m done → F' m done) (he : F' e.target []) :
    Stack g F' (e.target :: n :: path) (e.text :: texts)
      (g.successors e.target :: es :: pending) := by
  have hF' := List.forall_mem_cons.1 hF
  cases h with
  | top hs hd hf => exact .top (List.nil_append _).symm he (.push hs (hF'.1 _ hd) (hf.mono hF'.2))

/-- The search leaves the current type, all of whose edges are examined, and so is the edge that
led to it. -/
theorem Stack.leave (h : Stack g F (n :: path) texts ([] :: pending))
    (hF : ∀ m ∈ path, ∀ done, F m done → F' m done)
    (hn : ∀ m ∈ path, ∀ done e, e.target = n → F' m done → F' m (done ++ [e])) :
    Stack g F' path texts.tail pending := by
  cases h with
  | top _ _ hf =>
    cases hf with
    | root => exact .empty
    | @push m e done es _ _ _ hs hd hf =>
      have hF' := List.forall_mem_cons.1 hF
      have hs' : g.successors m = (done ++ [e]) ++ es := by simp [hs]
      exact .top hs' (hn m (List.mem_cons_self ..) done e rfl (hF'.1 done hd)) (hf.mono hF'.2)

theorem Stack.examined (h : Stack g F (n :: path) texts ([] :: pending)) :
    F n (g.successors n) := by
  cases h with
  | top hs hd _ => rwa [hs, List.append_nil]

/-! ## Cycles -/

theorem Stack.length_texts (h : Stack g F (n :: path) texts pending) :
    texts.length = path.length := by
  cases h with
  | top _ _ hf => exact hf.length_texts

/-- An edge from the current type back to the path closes a simple cycle. The rest of the cycle lies
in every part of the graph that has the edges along the path. -/
theorem Stack.traces_within (h : Stack g F (n :: path) texts ((e :: es) :: pending))
    (hk : ∀ m done e es, g.successors m = done ++ e :: es → F m done → e ∈ k.successors m)
    (hsub : ∀ m, k.successors m ⊆ g.successors m) (hnodup : (n :: path).Nodup) {i : Nat}
    (hi : (n :: path)[i]? = some e.target) :
    ∃ ws, k.Walk e.target ws n ∧
      CycleReport.Traces ⟨e.target, e.target :: (texts.take i).reverse ++ [e.text]⟩ g
        (ws ++ [e]) := by
  cases h with
  | @top _ done _ _ _ _ hs hd hf =>
    obtain ⟨ws, hw, htext, htarget⟩ := hf.walk hk hi
    have he : e ∈ g.successors n := by rw [hs]; simp
    have htargets : (ws ++ [e]).map Edge.target = ((n :: path).take i).reverse ++ [e.target] := by
      simp [htarget]
    have htake : (n :: path).take (i + 1) = (n :: path).take i ++ [e.target] := by
      rw [List.take_add_one, hi]; rfl
    refine ⟨ws, hw, (hw.mono hsub).snoc he, by simp, ?_, by simp [htext]⟩
    have hi' : ((n :: path).take i ++ [e.target]).Nodup := by
      rw [← htake]
      exact hnodup.sublist (List.take_sublist _ _)
    rw [htargets]
    exact ((List.reverse_perm _).append_right _).nodup_iff.2 hi'

theorem Stack.traces (h : Stack g F (n :: path) texts ((e :: es) :: pending))
    (hnodup : (n :: path).Nodup) {i : Nat} (hi : (n :: path)[i]? = some e.target) :
    ∃ ws, g.Walk e.target ws n ∧
      CycleReport.Traces ⟨e.target, e.target :: (texts.take i).reverse ++ [e.text]⟩ g
        (ws ++ [e]) :=
  h.traces_within (fun m done e es hs _ => by rw [hs]; simp) (fun m => List.Subset.refl _) hnodup hi

end HierarchyLint.Graph
