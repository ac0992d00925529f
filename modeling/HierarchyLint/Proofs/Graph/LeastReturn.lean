import HierarchyLint.Proofs.Graph.Reports
import Mathlib.Data.List.Lex

/-!
# The least way back

A way back to a type is a closed walk that meets no type twice on the way. Written as the places of
its edges in the lists of the types they leave, every two of them compare by the first place where
they differ. The search for a way back passes over every type that it has visited; nonetheless it
finds the least of them all. Its own place is a list of places as well, the cursor, and the
invariant is that no way back comes before the cursor (`Stands.least`). What carries it is that a
type which the search has left leads back only through a type that is still on the path
(`Inv.exists_on_path`).
-/

namespace HierarchyLint.Graph

variable {g : Graph} {name n m u v : String} {e : Edge} {es fs : List Edge} {i k : Nat}
  {ps qs rest places : List Nat}

/-! ## Routes -/

/-- The edges lead one after another from the first type to the second, and each stands at its place
among the edges of the type that it leaves. -/
inductive Route (g : Graph) : String → List Nat → List Edge → String → Prop where
  | nil (u : String) : Route g u [] [] u
  | cons {u v : String} {i : Nat} {e : Edge} {places : List Nat} {es : List Edge} :
      (g.successors u)[i]? = some e → Route g e.target places es v →
      Route g u (i :: places) (e :: es) v

/-- The edges at the places lead from the type back to it and meet no type twice on the way. A way
that meets the type itself in between counts as well, though a shorter one comes before it. -/
structure Return (g : Graph) (n : String) (places : List Nat) (es : List Edge) : Prop where
  route : g.Route n places es n
  ne_nil : es ≠ []
  distinct : (es.map Edge.target).dropLast.Nodup

/-- Of all ways back to the type, that at the places comes first. -/
structure LeastReturn (g : Graph) (n : String) (places : List Nat) (es : List Edge) : Prop
    extends g.Return n places es where
  least : ∀ places' es', g.Return n places' es' →
    places' = places ∨ List.Lex (· < ·) places places'

theorem Route.walk (h : g.Route u places es v) : g.Walk u es v := by
  induction h with
  | nil => exact .nil _
  | cons he _ ih => exact .cons (List.mem_of_getElem? he) ih

theorem Route.snoc (h : g.Route u places es v) (he : (g.successors v)[i]? = some e) :
    g.Route u (places ++ [i]) (es ++ [e]) e.target := by
  induction h with
  | nil => exact .cons he (.nil _)
  | cons hf _ ih => exact .cons hf (ih he)

/-- The first places decide where a route has got to. -/
theorem Route.exists_rest (h : g.Route u ps es m) (k : g.Route u (ps ++ rest) fs v) :
    ∃ more, fs = es ++ more ∧ g.Route m rest more v := by
  induction h generalizing fs with
  | nil => exact ⟨fs, rfl, k⟩
  | cons he _ ih =>
    cases k with
    | cons hf k =>
      obtain rfl := Option.some.inj (he.symm.trans hf)
      obtain ⟨more, rfl, hmore⟩ := ih k
      exact ⟨more, rfl, hmore⟩

/-! ## The order of places -/

/-- What comes before some places with one more behind them. -/
theorem lex_concat_iff : List.Lex (· < ·) qs (ps ++ [k]) ↔
    List.Lex (· < ·) qs ps ∨ qs = ps ∨ ∃ j rest, j < k ∧ qs = ps ++ j :: rest := by
  induction ps generalizing qs with
  | nil =>
    cases qs with
    | nil => simp
    | cons j rest => simp [List.cons_lex_cons_iff]
  | cons p ps ih =>
    cases qs with
    | nil => simp
    | cons q qs =>
      simp only [List.cons_append, List.cons_lex_cons_iff, ih, List.cons.injEq]
      constructor
      · rintro (h | ⟨rfl, h | rfl | ⟨j, rest, hj, rfl⟩⟩)
        · exact .inl (.inl h)
        · exact .inl (.inr ⟨rfl, h⟩)
        · exact .inr (.inl ⟨rfl, rfl⟩)
        · exact .inr (.inr ⟨j, rest, hj, rfl, rfl⟩)
      · rintro ((h | ⟨rfl, h⟩) | ⟨rfl, rfl⟩ | ⟨j, rest, hj, rfl, rfl⟩)
        · exact .inl h
        · exact .inr ⟨rfl, .inl h⟩
        · exact .inr ⟨rfl, .inr (.inl rfl)⟩
        · exact .inr ⟨rfl, .inr (.inr ⟨j, rest, hj, rfl⟩)⟩

/-- Between two places next to each other there are only those that go on from the first one. -/
theorem lex_concat_succ (h : List.Lex (· < ·) qs (ps ++ [k + 1])) :
    List.Lex (· < ·) qs (ps ++ [k]) ∨ ∃ rest, qs = ps ++ k :: rest := by
  rcases lex_concat_iff.1 h with h | rfl | ⟨j, rest, hj, rfl⟩
  · exact .inl (lex_concat_iff.2 (.inl h))
  · exact .inl (lex_concat_iff.2 (.inr (.inl rfl)))
  · rcases Nat.lt_succ_iff_lt_or_eq.1 hj with hj | rfl
    · exact .inl (lex_concat_iff.2 (.inr (.inr ⟨j, rest, hj, rfl⟩)))
    · exact .inr ⟨rest, rfl⟩

/-! ## The place of the search -/

/-- The part of the stack below the current type, with the places of the edges that the path
follows. -/
inductive Descent (g : Graph) (root : String) :
    String → List String → List String → List (List Edge) → List Nat → Prop where
  | root : Descent g root root [] [] [] []
  | push {m : String} {i : Nat} {e : Edge} {path texts : List String}
      {pending : List (List Edge)} {places : List Nat} :
      (g.successors m)[i]? = some e → Descent g root m path texts pending places →
      Descent g root e.target (m :: path) (e.text :: texts)
        ((g.successors m).drop (i + 1) :: pending) (places ++ [i])

/-- The cursor of a search: the places of the edges that the path follows, and behind them that of
the next edge. Nothing is left of it when the search is over. -/
inductive Cursor (g : Graph) (root : String) :
    List String → List String → List (List Edge) → List Nat → Prop where
  | over : Cursor g root [] [] [] []
  | next {n : String} {k : Nat} {path texts : List String} {es : List Edge}
      {pending : List (List Edge)} {places : List Nat} :
      Descent g root n path texts pending places → es = (g.successors n).drop k →
      Cursor g root (n :: path) texts (es :: pending) (places ++ [k])

variable {path texts : List String} {pending : List (List Edge)} {cursor : List Nat}

theorem Descent.exists_route (h : g.Descent name n path texts pending places) :
    ∃ ws, g.Route name places ws n ∧ ws.map Edge.text = texts.reverse ∧
      name :: ws.map Edge.target = (n :: path).reverse := by
  induction h with
  | root => exact ⟨[], .nil _, rfl, rfl⟩
  | push he _ ih =>
    obtain ⟨ws, hroute, htexts, htargets⟩ := ih
    refine ⟨ws ++ [_], hroute.snoc he, by simp [htexts], ?_⟩
    rw [List.map_append, ← List.cons_append, htargets]
    exact List.reverse_cons.symm

theorem Cursor.exists_next (h : g.Cursor name path texts ((e :: es) :: pending) cursor) :
    ∃ n below places k, path = n :: below ∧ cursor = places ++ [k] ∧
      g.Descent name n below texts pending places ∧ (g.successors n)[k]? = some e ∧
      es = (g.successors n).drop (k + 1) := by
  cases h with
  | @next n k below _ _ _ places hdescent hes =>
    refine ⟨n, below, places, k, rfl, rfl, hdescent, ?_, ?_⟩
    · rw [← List.head?_drop, ← hes]
      rfl
    · rw [← List.tail_drop, ← hes]
      rfl

namespace WayBack

variable {w x : WayBack} {r : CycleReport}

/-- A type that the search has left leads back to the type only through another one on the path. -/
theorem Inv.exists_on_path (I : Inv g name w path) (hwalk : g.Walk u es name) (hu : u ∈ w.visited)
    (hne : u ≠ name) : ∃ m ∈ (u :: es.map Edge.target).dropLast, m ∈ path ∧ m ≠ name := by
  induction hwalk with
  | nil => exact absurd rfl hne
  | @cons u v e es he hwalk ih =>
    by_cases hpath : u ∈ path
    · exact ⟨u, List.mem_cons_self .., hpath, hne⟩
    · obtain ⟨hv, hne⟩ := I.off_path u hu hpath e he
      obtain ⟨m, hm, hmpath⟩ := ih I hv hne
      exact ⟨m, List.mem_cons_of_mem _ hm, hmpath⟩

/-- No way back goes along the path and then to a visited type. -/
theorem Inv.not_return (I : Inv g name w (n :: path))
    (hdescent : g.Descent name n path texts pending places)
    (he : (g.successors n)[k]? = some e) (hne : e.target ≠ name) (hv : e.target ∈ w.visited) :
    ¬ g.Return name (places ++ k :: rest) es := by
  intro hreturn
  obtain ⟨ws, hroute, -, htargets⟩ := hdescent.exists_route
  obtain ⟨more, rfl, hmore⟩ := hroute.exists_rest hreturn.route
  cases hmore with
  | @cons _ _ _ f _ fs hf hfs =>
    obtain rfl := Option.some.inj (he.symm.trans hf)
    obtain ⟨m, hm, hpath, hroot⟩ := I.exists_on_path hfs.walk hv hne
    have hws : m ∈ ws.map Edge.target := by
      rw [← List.mem_reverse, ← htargets] at hpath
      exact (List.mem_cons.1 hpath).resolve_left hroot
    have hdistinct := hreturn.distinct
    rw [List.map_append, List.map_cons, List.dropLast_append_cons] at hdistinct
    exact (List.nodup_append.1 hdistinct).2.2 m hws m hm rfl

/-! ## One step -/

/-- What holds between two steps: the search has its place in the order of places, and no way back
comes before it. -/
structure Stands (g : Graph) (name : String) (w : WayBack) (path : List String)
    (cursor : List Nat) : Prop where
  inv : Inv g name w path
  place : g.Cursor name path w.texts w.pending cursor
  least : ∀ qs es, g.Return name qs es → ¬ List.Lex (· < ·) qs cursor

theorem Stands.start (g : Graph) (name : String) : Stands g name (start g name) [name] [0] where
  inv := .start g name
  place := .next .root rfl
  least := by
    rintro qs es hreturn hlex
    replace hlex : List.Lex (· < ·) qs ([] ++ [0]) := hlex
    rcases lex_concat_iff.1 hlex with h | rfl | ⟨j, rest, hj, rfl⟩
    · exact List.not_lex_nil h
    · cases hreturn.route
      exact hreturn.ne_nil rfl
    · exact absurd hj (Nat.not_lt_zero j)

/-- An edge back to the type closes the way that the cursor spells. -/
theorem Stands.found (S : Stands g name w path cursor) (h : w.step g name = .found r) :
    r.typeName = name ∧ ∃ es, r.Traces g es ∧ g.Return name cursor es := by
  obtain ⟨inv, place, -⟩ := S
  obtain ⟨e, es, below, hp, hname, rfl⟩ := exists_edge_of_step h
  rw [hp] at place
  obtain ⟨n, path, places, k, rfl, rfl, hdescent, he, -⟩ := place.exists_next
  obtain ⟨ws, hroute, htexts, htargets⟩ := hdescent.exists_route
  have hback : g.Route name (places ++ [k]) (ws ++ [e]) name := hname ▸ hroute.snoc he
  have hne : ws ++ [e] ≠ [] := List.append_ne_nil_of_right_ne_nil _ (List.cons_ne_nil _ _)
  have hnodup : (name :: ws.map Edge.target).Nodup := by
    rw [htargets]
    exact (List.reverse_perm _).nodup_iff.2 inv.path_nodup
  have hmap : (ws ++ [e]).map Edge.target = ws.map Edge.target ++ [name] := by simp [hname]
  refine ⟨rfl, ws ++ [e], ⟨hback.walk, hne, ?_, ?_⟩, ⟨hback, hne, ?_⟩⟩
  · rw [hmap]
    exact (List.perm_append_singleton _ _).nodup_iff.2 hnodup
  · simp [htexts]
  · rw [hmap, List.dropLast_concat]
    exact (List.nodup_cons.1 hnodup).2

/-- An edge to a visited type is passed over, for no way back goes along it. -/
theorem Stands.skip (S : Stands g name w path cursor) {below : List (List Edge)}
    (hp : w.pending = (e :: es) :: below) (hne : e.target ≠ name) (hv : e.target ∈ w.visited) :
    ∃ cursor', Stands g name { w with pending := es :: below } path cursor' := by
  obtain ⟨inv, place, least⟩ := S
  have inv' := inv.skip hp hne hv
  rw [hp] at place
  obtain ⟨n, path, places, k, rfl, rfl, hdescent, he, hes⟩ := place.exists_next
  refine ⟨places ++ [k + 1], inv', .next hdescent hes, fun qs es hreturn hlex => ?_⟩
  rcases lex_concat_succ hlex with hlex | ⟨rest, rfl⟩
  · exact least qs es hreturn hlex
  · exact inv.not_return hdescent he hne hv hreturn

/-- A type that is followed is not the end of a way back. -/
theorem Stands.enter (S : Stands g name w path cursor) {below : List (List Edge)}
    (hp : w.pending = (e :: es) :: below) (hne : e.target ≠ name) (hv : e.target ∉ w.visited) :
    Stands g name ⟨e.target :: w.visited, e.text :: w.texts, g.successors e.target :: es :: below⟩
      (e.target :: path) (cursor ++ [0]) := by
  obtain ⟨inv, place, least⟩ := S
  have inv' := inv.enter hp hv
  rw [hp] at place
  obtain ⟨n, path, places, k, rfl, rfl, hdescent, he, rfl⟩ := place.exists_next
  have hnext := hdescent.push he
  refine ⟨inv', .next hnext rfl, fun qs es hreturn hlex => ?_⟩
  rcases lex_concat_iff.1 hlex with hlex | rfl | ⟨j, rest, hj, -⟩
  · exact least qs es hreturn hlex
  · obtain ⟨ws, hroute, -⟩ := hnext.exists_route
    have hback := hreturn.route
    rw [← List.append_nil (places ++ [k])] at hback
    obtain ⟨more, -, hmore⟩ := hroute.exists_rest hback
    cases hmore
    exact hne rfl
  · exact absurd hj (Nat.not_lt_zero j)

/-- When the edges of a type are examined, no way back goes along the edge that led to it. -/
theorem Stands.leave (S : Stands g name w path cursor) {below : List (List Edge)}
    (hp : w.pending = [] :: below) :
    ∃ cursor', Stands g name { w with pending := below, texts := w.texts.tail } path.tail
      cursor' := by
  obtain ⟨inv, place, least⟩ := S
  have inv' := inv.leave hp
  obtain ⟨visited, texts, pending⟩ := w
  obtain rfl : pending = [] :: below := hp
  cases place with
  | @next n k _ _ _ _ places hdescent hes =>
    cases hdescent with
    | root => exact ⟨[], inv', .over, fun _ _ _ => List.not_lex_nil⟩
    | @push m i e path texts pending places he hdescent =>
      refine ⟨places ++ [i + 1], inv', .next hdescent rfl, fun qs es hreturn hlex => ?_⟩
      refine least qs es hreturn (lex_concat_iff.2 ?_)
      rcases lex_concat_succ hlex with hlex | ⟨rest, rfl⟩
      · exact .inl hlex
      · obtain ⟨ws, hroute, -⟩ := (hdescent.push he).exists_route
        rw [List.append_cons] at hreturn ⊢
        obtain ⟨more, -, hmore⟩ := hroute.exists_rest hreturn.route
        cases hmore with
        | nil => exact .inr (.inl (List.append_nil _))
        | @cons _ _ j f rest _ hf _ =>
          have hj : j < k := by
            have := (List.getElem?_eq_some_iff.1 hf).1
            have := List.drop_eq_nil_iff.1 hes.symm
            omega
          exact .inr (.inr ⟨j, rest, hj, rfl⟩)

theorem Stands.onward (S : Stands g name w path cursor) (h : w.step g name = .onward x) :
    ∃ path' cursor', Stands g name x path' cursor' := by
  cases moves_of_step h with
  | leave hp => exact ⟨_, S.leave hp⟩
  | skip hp hne hv => exact ⟨_, S.skip hp hne hv⟩
  | enter hp hne hv => exact ⟨_, _, S.enter hp hne hv⟩

/-! ## Whole runs -/

theorem Stands.run (S : Stands g name w path cursor) (h : w.run g name = some r) :
    r.typeName = name ∧ ∃ places es, r.Traces g es ∧ g.LeastReturn name places es := by
  obtain ⟨x, ⟨_, last, Sx⟩, hstep⟩ := exists_found
    (P := fun w => ∃ path cursor, Stands g name w path cursor)
    (fun ⟨_, _, S⟩ hstep => S.onward hstep) ⟨path, cursor, S⟩ h
  obtain ⟨hname, es, htraces, hreturn⟩ := Sx.found hstep
  refine ⟨hname, last, es, htraces, hreturn, fun places' es' hreturn' => ?_⟩
  rcases trichotomous_of (List.Lex (· < ·)) places' last with hlt | heq | hgt
  · exact absurd hlt (Sx.least places' es' hreturn')
  · exact .inl heq
  · exact .inr hgt

end WayBack

/-- The report about a type on a cycle is the first one in depth-first order, without any pruning:
of all ways back to the type, its edges stand at the least places, compared from the first one on,
and its chain is the type and the texts of these edges. -/
theorem cycleThrough_leastReturn (hn : g.OnCycle n) :
    ∃ r places es, g.cycleThrough n = some r ∧ r.typeName = n ∧ r.Traces g es ∧
      g.LeastReturn n places es := by
  obtain ⟨r, hr⟩ := exists_cycleThrough_iff.2 hn
  obtain ⟨hname, places, es, htraces, hleast⟩ := (WayBack.Stands.start g n).run hr
  exact ⟨r, places, es, hr, hname, htraces, hleast⟩

/-- From `B`, the type `C` leads nowhere but back to `B`; from `D` it lies on a way back to `A`. -/
def detour : Graph where
  edges :=
    { entries :=
        [("A", [⟨"b", "B"⟩, ⟨"d", "D"⟩]), ("B", [⟨"c", "C"⟩, ⟨"a", "A"⟩]), ("C", [⟨"b[d]", "B"⟩]),
          ("D", [⟨"c[d]", "C"⟩, ⟨"a[d]", "A"⟩])]
      nodup := by decide }

theorem cycleThrough_detour : detour.OnCycle "A" ∧
    detour.cycleThrough "A" = some ⟨"A", ["A", "b", "a"]⟩ ∧
    ∃ places es, es.map Edge.text = ["b", "a"] ∧ detour.LeastReturn "A" places es := by
  have hfound : detour.cycleThrough "A" = some ⟨"A", ["A", "b", "a"]⟩ := by decide +kernel
  have hcycle : detour.OnCycle "A" := by decide +kernel
  obtain ⟨r, places, es, hr, -, htraces, hleast⟩ := cycleThrough_leastReturn hcycle
  obtain rfl := Option.some.inj (hfound.symm.trans hr)
  exact ⟨hcycle, hfound, places, es, (List.cons.inj htraces.chain).2.symm, hleast⟩

end HierarchyLint.Graph
