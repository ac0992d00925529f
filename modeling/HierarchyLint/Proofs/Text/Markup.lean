import HierarchyLint.Text.Markup
import Mathlib.Data.List.Basic

/-!
# Live tags

In markup a tag takes effect if the number of backslashes in front of it is even. `Escaped` says
what escaping does, match by match: where backslashes and a tag begin, the backslashes are doubled
and one more is added, and every other character stays as it is. So each tag of the text gets an
odd number of backslashes, and no new tag arises (`Escaped.passes`). What is written behind the
escaped text matters as well, for a bracket at its end may still be open: there must not be a
closing bracket in front of the next opening one.
-/

namespace HierarchyLint.Text.Markup

/-- An opening bracket, a character with which a tag may begin, and others up to a closing bracket,
none of them an opening one. -/
def Matches (t : List Char) : Prop :=
  ∃ c run, t = '[' :: c :: (run ++ [']']) ∧ startsTag c = true ∧ '[' ∉ run

/-- A tag is the shortest match at its place. -/
structure IsTag (t : List Char) : Prop where
  isMatch : Matches t
  shortest : ∀ u, u <+: t → Matches u → u = t

/-- The number of backslashes that end the text. -/
def slashesAtEnd (cs : List Char) : Nat := (cs.reverse.takeWhile fun c => c = '\\').length

/-- The tag stands behind the front of the text, after an even number of backslashes. -/
structure LiveTag (cs front tag : List Char) : Prop where
  occurs : front ++ tag <+: cs
  isTag : IsTag tag
  even : slashesAtEnd front % 2 = 0

/-- Backslashes, perhaps none, and a tag behind them begin the text. -/
def BeginsMatch (cs : List Char) : Prop :=
  ∃ n t rest, IsTag t ∧ cs = List.replicate n '\\' ++ (t ++ rest)

/-- The first text is escaped to the second, one match after another. -/
inductive Escaped : List Char → List Char → Prop where
  | nil : Escaped [] []
  | tag {n : Nat} {t cs out : List Char} : IsTag t → Escaped cs out →
      Escaped (List.replicate n '\\' ++ (t ++ cs)) (List.replicate (2 * n + 1) '\\' ++ (t ++ out))
  | char {c : Char} {cs out : List Char} : ¬ BeginsMatch (c :: cs) → Escaped cs out →
      Escaped (c :: cs) (c :: out)

variable {c : Char} {n : Nat} {cs out pre after front t u v tag run rest : List Char}

/-! ## Tags -/

theorem startsTag_ne (h : startsTag c = true) : c ≠ '[' ∧ c ≠ ']' ∧ c ≠ '\\' := by
  refine ⟨?_, ?_, ?_⟩ <;> rintro rfl <;> exact absurd h (by decide)

/-- The shortest match ends with the first closing bracket. -/
theorem isTag_iff : IsTag t ↔
    ∃ c run, t = '[' :: c :: (run ++ [']']) ∧ startsTag c = true ∧ '[' ∉ run ∧ ']' ∉ run := by
  constructor
  · rintro ⟨⟨c, run, rfl, hc, hopen⟩, shortest⟩
    refine ⟨c, run, rfl, hc, hopen, fun hclose => ?_⟩
    obtain ⟨a, b, rfl⟩ := List.append_of_mem hclose
    have hmatch : Matches ('[' :: c :: (a ++ [']'])) :=
      ⟨c, a, rfl, hc, fun h => hopen (List.mem_append_left _ h)⟩
    have := congrArg List.length (shortest _ ⟨b ++ [']'], by simp⟩ hmatch)
    simp at this
  · rintro ⟨c, run, rfl, hc, hopen, hclose⟩
    refine ⟨⟨c, run, rfl, hc, hopen⟩, ?_⟩
    rintro u hu ⟨d, run', rfl, -, -⟩
    obtain ⟨rest, hrest⟩ := hu
    simp only [List.cons_append, List.append_assoc, List.cons.injEq, true_and] at hrest
    obtain ⟨rfl, hrest⟩ := hrest
    rcases List.append_eq_append_iff.1 hrest with ⟨a, rfl, ha⟩ | ⟨a, rfl, ha⟩
    · cases a with
      | nil => simp
      | cons b a =>
        obtain ⟨rfl, -⟩ := List.cons.inj ha
        simp at hclose
    · cases a with
      | nil => simp
      | cons b a => simp at ha

theorem closes_iff : closes cs = true ↔
    ∃ run rest, cs = run ++ ']' :: rest ∧ '[' ∉ run ∧ ']' ∉ run := by
  induction cs with
  | nil => simp [closes]
  | cons d cs ih =>
    unfold closes
    split
    · rename_i hd
      subst hd
      exact ⟨fun _ => ⟨[], cs, rfl, by simp, by simp⟩, fun _ => rfl⟩
    · rename_i hclose
      split
      · rename_i hopen
        subst hopen
        refine ⟨fun h => absurd h (by simp), ?_⟩
        rintro ⟨_ | ⟨b, run⟩, rest, heq, hb, -⟩
        · exact absurd (List.cons.inj heq).1 (by decide)
        · exact absurd (List.cons.inj heq).1 fun h => hb (h ▸ List.mem_cons_self ..)
      · rename_i hopen
        rw [ih]
        constructor
        · rintro ⟨run, rest, rfl, ho, hc⟩
          exact ⟨d :: run, rest, rfl, by simp [ho, Ne.symm hopen], by simp [hc, Ne.symm hclose]⟩
        · rintro ⟨_ | ⟨b, run⟩, rest, heq, ho, hc⟩
          · exact absurd (List.cons.inj heq).1 hclose
          · obtain ⟨-, rfl⟩ := List.cons.inj heq
            exact ⟨run, rest, rfl, fun h => ho (List.mem_cons_of_mem _ h),
              fun h => hc (List.mem_cons_of_mem _ h)⟩

/-- The characters behind an opening bracket make a tag exactly if one begins there. -/
theorem opensTag_iff : opensTag cs = true ↔ ∃ t rest, IsTag t ∧ '[' :: cs = t ++ rest := by
  constructor
  · intro h
    cases cs with
    | nil => simp [opensTag] at h
    | cons d cs =>
      rw [opensTag, Bool.and_eq_true, closes_iff] at h
      obtain ⟨hd, run, rest, rfl, ho, hc⟩ := h
      exact ⟨_, rest, isTag_iff.2 ⟨d, run, rfl, hd, ho, hc⟩, by simp⟩
  · rintro ⟨t, rest, ht, heq⟩
    obtain ⟨d, run, rfl, hd, ho, hc⟩ := isTag_iff.1 ht
    simp only [List.cons_append, List.append_assoc, List.cons.injEq, true_and] at heq
    rw [heq, opensTag, Bool.and_eq_true]
    exact ⟨hd, closes_iff.2 ⟨run, rest, rfl, ho, hc⟩⟩

theorem IsTag.eq_of_prefix (ht : IsTag t) (hu : IsTag u) (htcs : t <+: cs) (hucs : u <+: cs) :
    t = u := by
  rcases Nat.le_total t.length u.length with h | h
  · exact hu.shortest t (List.prefix_of_prefix_length_le htcs hucs h) ht.isMatch
  · exact (ht.shortest u (List.prefix_of_prefix_length_le hucs htcs h) hu.isMatch).symm

theorem IsTag.exists_cons (ht : IsTag t) : ∃ u, t = '[' :: u ∧ '[' ∉ u := by
  obtain ⟨d, run, rfl, hd, ho, -⟩ := isTag_iff.1 ht
  exact ⟨_, rfl, by simp [ho, (startsTag_ne hd).1.symm]⟩

theorem IsTag.exists_concat (ht : IsTag t) : ∃ u, t = u ++ [']'] := by
  obtain ⟨d, run, rfl, -⟩ := isTag_iff.1 ht
  exact ⟨'[' :: d :: run, rfl⟩

theorem Matches.exists_isTag (h : Matches t) : ∃ u, u <+: t ∧ IsTag u := by
  obtain ⟨d, run, rfl, hd, ho⟩ := h
  have hclose : closes (run ++ [']']) = true := by
    induction run with
    | nil => rfl
    | cons b run ih =>
      obtain ⟨hb, ho⟩ := not_or.1 (mt List.mem_cons.2 ho)
      unfold closes
      simp only [List.cons_append, Ne.symm hb, if_false, ih ho]
      split <;> rfl
  have hopens : opensTag (d :: (run ++ [']'])) = true := by rw [opensTag, hd, hclose]; rfl
  obtain ⟨u, rest, hu, heq⟩ := opensTag_iff.1 hopens
  exact ⟨u, ⟨rest, heq.symm⟩, hu⟩

/-! ## Matches -/

theorem beginsMatch_slash_iff : BeginsMatch ('\\' :: cs) ↔ BeginsMatch cs := by
  constructor
  · rintro ⟨n, t, rest, ht, heq⟩
    cases n with
    | zero =>
      obtain ⟨u, rfl, -⟩ := ht.exists_cons
      exact absurd (List.cons.inj heq).1 (by decide)
    | succ n => exact ⟨n, t, rest, ht, (List.cons.inj heq).2⟩
  · rintro ⟨n, t, rest, ht, rfl⟩
    exact ⟨n + 1, t, rest, ht, rfl⟩

theorem beginsMatch_slashes_iff : BeginsMatch (List.replicate n '\\' ++ cs) ↔ BeginsMatch cs := by
  induction n with
  | zero => rfl
  | succ n ih => rw [List.replicate_succ, List.cons_append, beginsMatch_slash_iff, ih]

theorem beginsMatch_cons_iff (hc : c ≠ '\\') :
    BeginsMatch (c :: cs) ↔ c = '[' ∧ opensTag cs = true := by
  constructor
  · rintro ⟨n, t, rest, ht, heq⟩
    cases n with
    | zero =>
      obtain ⟨u, rfl, -⟩ := ht.exists_cons
      obtain ⟨rfl, rfl⟩ := List.cons.inj heq
      exact ⟨rfl, opensTag_iff.2 ⟨_, rest, ht, rfl⟩⟩
    | succ n => exact absurd (List.cons.inj heq).1 hc
  · rintro ⟨rfl, h⟩
    obtain ⟨t, rest, ht, heq⟩ := opensTag_iff.1 h
    exact ⟨0, t, rest, ht, heq⟩

theorem not_beginsMatch_nil : ¬ BeginsMatch [] := by
  rintro ⟨n, t, rest, ht, heq⟩
  obtain ⟨u, rfl, -⟩ := ht.exists_cons
  simp at heq

/-! ## Escaping -/

/-- Backslashes that no tag follows stay as they are. -/
theorem Escaped.slashes (hcs : ¬ BeginsMatch cs) (h : Escaped cs out) (n : Nat) :
    Escaped (List.replicate n '\\' ++ cs) (List.replicate n '\\' ++ out) := by
  induction n with
  | zero => exact h
  | succ n ih =>
    rw [← beginsMatch_slashes_iff (n := n + 1)] at hcs
    exact .char hcs ih

theorem escapeFrom_inside (hrun : ']' ∉ run) (rest : List Char) :
    escapeFrom .inside (run ++ ']' :: rest) = run ++ ']' :: escapeFrom (.outside 0) rest := by
  induction run with
  | nil => rfl
  | cons d run ih =>
    obtain ⟨hd, hrun⟩ := not_or.1 (mt List.mem_cons.2 hrun)
    rw [List.cons_append, escapeFrom, if_neg (Ne.symm hd), ih hrun]
    rfl

/-- The characters of a tag are passed over as one. -/
theorem IsTag.escapeFrom (ht : IsTag ('[' :: u)) (rest : List Char) :
    escapeFrom .inside (u ++ rest) = u ++ escapeFrom (.outside 0) rest := by
  obtain ⟨d, run, heq, hd, -, hc⟩ := isTag_iff.1 ht
  obtain rfl := (List.cons.inj heq).2
  have hrun : ']' ∉ d :: run := by simp [hc, (startsTag_ne hd).2.1.symm]
  simpa using escapeFrom_inside hrun rest

theorem escaped_escapeFrom (n : Nat) (cs : List Char) :
    Escaped (List.replicate n '\\' ++ cs) (escapeFrom (.outside n) cs) := by
  induction hlen : cs.length using Nat.strongRecOn generalizing n cs with
  | ind len ih =>
    subst hlen
    cases cs with
    | nil => simpa [escapeFrom] using Escaped.nil.slashes not_beginsMatch_nil n
    | cons d cs =>
      unfold escapeFrom
      split
      · rename_i hd
        subst hd
        have := ih cs.length (by simp) (n + 1) cs rfl
        rwa [List.replicate_succ', List.append_assoc] at this
      · rename_i hslash
        split
        · rename_i hmatch
          obtain ⟨rfl, htag⟩ := hmatch
          obtain ⟨t, rest, ht, heq⟩ := opensTag_iff.1 htag
          obtain ⟨u, rfl, -⟩ := ht.exists_cons
          obtain rfl : cs = u ++ rest := (List.cons.inj heq).2
          have hrest : Escaped rest (escapeFrom (.outside 0) rest) := by
            refine ih rest.length ?_ 0 rest rfl
            simp only [List.length_cons, List.length_append]
            omega
          rw [ht.escapeFrom]
          exact .tag ht hrest
        · rename_i hmatch
          have hplain : ¬ BeginsMatch (d :: cs) := mt (beginsMatch_cons_iff hslash).1 hmatch
          exact Escaped.slashes hplain (.char hplain (ih cs.length (by simp) 0 cs rfl)) n

theorem exists_escaped (s : String) :
    ∃ out, Escaped s.toList out ∧ (escape s).toList = guardEnd out :=
  ⟨_, escaped_escapeFrom 0 s.toList, by simp [escape]⟩

theorem guardEnd_cases (cs : List Char) : guardEnd cs = cs ∨ guardEnd cs = cs ++ ['\\'] := by
  unfold guardEnd
  split
  · exact .inl rfl
  · exact .inr rfl
  · exact .inl rfl

theorem Escaped.getLast? (h : Escaped cs out) : out.getLast? = cs.getLast? := by
  induction h with
  | nil => rfl
  | tag ht _ ih =>
    obtain ⟨u, rfl⟩ := ht.exists_concat
    simp [List.getLast?_append, List.getLast?_cons, ih]
  | char _ _ ih => rw [List.getLast?_cons, List.getLast?_cons, ih]

/-- Brackets stay as they are, so what an open bracket at the end needs is not changed either. -/
theorem Escaped.closes (h : Escaped cs out) (hafter : closes after = false) :
    closes (out ++ after) = closes cs := by
  have hslashes : ∀ n v, Markup.closes (List.replicate n '\\' ++ '[' :: v) = false := by
    intro n v
    induction n with
    | zero => rfl
    | succ n ih => exact ih
  induction h with
  | nil => exact hafter
  | tag ht _ _ =>
    obtain ⟨u, rfl, -⟩ := ht.exists_cons
    rw [List.append_assoc, List.cons_append, List.cons_append, List.cons_append, hslashes, hslashes]
  | char _ _ ih => simp only [List.cons_append, Markup.closes, ih]

/-- A bracket of the escaped text begins a tag only if it does so in the text itself. -/
theorem Escaped.opensTag (h : Escaped cs out) (hafter : Markup.closes after = false)
    (htag : opensTag (out ++ after) = true) : opensTag cs = true := by
  cases h with
  | nil =>
    cases after with
    | nil => exact htag
    | cons d after =>
      rw [List.nil_append, Markup.opensTag, Bool.and_eq_true] at htag
      obtain ⟨ho, hc, -⟩ := startsTag_ne htag.1
      rw [Markup.closes, if_neg hc, if_neg ho, htag.2] at hafter
      exact absurd hafter (by decide)
  | @tag n t cs out _ _ =>
    rw [Nat.add_comm, List.replicate_add, List.append_assoc, List.append_assoc] at htag
    exact absurd htag (by simp [Markup.opensTag, startsTag])
  | char _ h =>
    rw [List.cons_append, Markup.opensTag, h.closes hafter] at htag
    exact htag

/-! ## Passing over text -/

theorem slashesAtEnd_concat (cs : List Char) (c : Char) :
    slashesAtEnd (cs ++ [c]) = if c = '\\' then slashesAtEnd cs + 1 else 0 := by
  unfold slashesAtEnd
  by_cases h : c = '\\' <;> simp [h]

theorem slashesAtEnd_concat_ne (cs : List Char) (hc : c ≠ '\\') : slashesAtEnd (cs ++ [c]) = 0 := by
  rw [slashesAtEnd_concat, if_neg hc]

theorem slashesAtEnd_append_replicate (cs : List Char) (n : Nat) :
    slashesAtEnd (cs ++ List.replicate n '\\') = slashesAtEnd cs + n := by
  induction n with
  | zero => simp
  | succ n ih =>
    rw [List.replicate_succ', ← List.append_assoc, slashesAtEnd_concat, if_pos rfl, ih]
    rfl

/-- No live tag begins in the part `u` of the text, which stands between `pre` and `after`. -/
def Passes (pre u after : List Char) : Prop :=
  ∀ front tag, LiveTag (pre ++ (u ++ after)) front tag → pre <+: front → pre ++ u <+: front

theorem passes_nil : Passes pre [] after := by
  intro front tag _ h
  rwa [List.append_nil]

theorem Passes.append (h : Passes pre u (v ++ after)) (k : Passes (pre ++ u) v after) :
    Passes pre (u ++ v) after := by
  intro front tag hlive hpre
  rw [List.append_assoc] at hlive
  have hu := h front tag hlive hpre
  rw [← List.append_assoc] at hlive ⊢
  exact k front tag hlive hu

/-- A character is passed unless it begins a tag behind an even number of backslashes. -/
theorem passes_char (hc : c = '[' → opensTag after = true → slashesAtEnd pre % 2 = 1) :
    Passes pre [c] after := by
  rintro front tag hlive ⟨rest, rfl⟩
  have hoccurs := hlive.occurs
  rw [List.append_assoc, List.prefix_append_right_inj, List.singleton_append] at hoccurs
  cases rest with
  | nil =>
    obtain ⟨u, rfl, -⟩ := hlive.isTag.exists_cons
    obtain ⟨more, hmore⟩ := hoccurs
    obtain ⟨rfl, rfl⟩ := List.cons.inj hmore
    have heven := hlive.even
    rw [List.append_nil, hc rfl (opensTag_iff.2 ⟨_, more, hlive.isTag, rfl⟩)] at heven
    exact absurd heven (by decide)
  | cons d rest =>
    obtain ⟨rfl, -⟩ := List.cons_prefix_cons.1 hoccurs
    exact ⟨rest, by simp⟩

theorem passes_plain (hu : '[' ∉ u) : Passes pre u after := by
  induction u generalizing pre with
  | nil => exact passes_nil
  | cons d u ih =>
    obtain ⟨hd, hu⟩ := not_or.1 (mt List.mem_cons.2 hu)
    have hchar : Passes pre [d] (u ++ after) := passes_char fun h => absurd h.symm hd
    exact hchar.append (ih hu)

/-- A tag behind an odd number of backslashes is passed. -/
theorem IsTag.passes (ht : IsTag t) (hodd : slashesAtEnd pre % 2 = 1) : Passes pre t after := by
  obtain ⟨u, rfl, hu⟩ := ht.exists_cons
  have hopen : Passes pre ['['] (u ++ after) := passes_char fun _ _ => hodd
  exact hopen.append (passes_plain hu)

/-- A live tag that does not begin in front of a tag is that tag or begins behind it. -/
theorem IsTag.eq_or_passes (ht : IsTag t) (hlive : LiveTag (pre ++ (t ++ after)) front tag)
    (hpre : pre <+: front) : (front = pre ∧ tag = t) ∨ pre ++ t <+: front := by
  obtain ⟨rest, rfl⟩ := hpre
  have hoccurs := hlive.occurs
  rw [List.append_assoc, List.prefix_append_right_inj] at hoccurs
  cases rest with
  | nil =>
    have := hlive.isTag.eq_of_prefix ht hoccurs (List.prefix_append ..)
    exact .inl ⟨List.append_nil _, this⟩
  | cons d rest =>
    obtain ⟨u, rfl, hu⟩ := ht.exists_cons
    obtain ⟨rfl, -⟩ := List.cons_prefix_cons.1 hoccurs
    refine .inr ?_
    have hbehind : Passes (pre ++ ['[']) u after := passes_plain hu
    have hlive' : LiveTag ((pre ++ ['[']) ++ (u ++ after)) (pre ++ '[' :: rest) tag := by
      simpa using hlive
    simpa using hbehind _ _ hlive' ⟨rest, by simp⟩

theorem Escaped.passes (h : Escaped cs out) (hafter : Markup.closes after = false)
    (hpre : BeginsMatch cs → slashesAtEnd pre = 0) : Passes pre out after := by
  induction h generalizing pre with
  | nil => exact passes_nil
  | @tag n t cs out ht _ ih =>
    have hzero := hpre ⟨n, t, cs, ht, rfl⟩
    obtain ⟨u, hu⟩ := ht.exists_concat
    have hslashes : Passes pre (List.replicate (2 * n + 1) '\\') ((t ++ out) ++ after) :=
      passes_plain (by simp [List.mem_replicate])
    have htag : Passes (pre ++ List.replicate (2 * n + 1) '\\') t (out ++ after) := by
      refine ht.passes ?_
      rw [slashesAtEnd_append_replicate, hzero]
      omega
    refine hslashes.append (htag.append (ih fun _ => ?_))
    rw [hu, ← List.append_assoc]
    exact slashesAtEnd_concat_ne _ (by decide)
  | @char c cs out hno h ih =>
    have hchar : Passes pre [c] (out ++ after) := by
      refine passes_char ?_
      rintro rfl htag
      have hbegins := (beginsMatch_cons_iff (by decide)).2 ⟨rfl, h.opensTag hafter htag⟩
      exact absurd hbegins hno
    refine hchar.append (ih fun hbegins => ?_)
    -- a match behind a backslash would begin at the backslash
    have hc : c ≠ '\\' := fun hc => hno (hc ▸ beginsMatch_slash_iff.2 hbegins)
    exact slashesAtEnd_concat_ne _ hc

/-- No live tag begins in an escaped text, if no backslash stands in front of it. -/
theorem passes_escape (s : String) (hafter : closes after = false) (hpre : slashesAtEnd pre = 0) :
    Passes pre (escape s).toList after := by
  obtain ⟨out, h, hescape⟩ := exists_escaped s
  rw [hescape]
  rcases guardEnd_cases out with hguard | hguard
  · rw [hguard]
    exact h.passes hafter fun _ => hpre
  · rw [hguard]
    have hout : Passes pre out (['\\'] ++ after) := h.passes hafter fun _ => hpre
    exact hout.append (passes_plain (by decide))

/-- A last character other than a backslash stays the last one. -/
theorem exists_escape_concat {s : String} (hs : s.toList = cs ++ [c]) (hc : c ≠ '\\') :
    ∃ ds, (escape s).toList = ds ++ [c] := by
  obtain ⟨out, h, hescape⟩ := exists_escaped s
  have hlast : out.getLast? = some c := by rw [h.getLast?, hs, List.getLast?_concat]
  obtain ⟨ds, rfl⟩ := List.getLast?_eq_some_iff.1 hlast
  refine ⟨ds, ?_⟩
  rw [hescape, guardEnd]
  simp [hc]

end HierarchyLint.Text.Markup
