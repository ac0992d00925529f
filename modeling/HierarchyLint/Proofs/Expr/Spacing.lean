import HierarchyLint.Proofs.Answer
import HierarchyLint.Proofs.Expr.Cutting
import HierarchyLint.Proofs.Expr.Renaming

/-!
# Blanks between tokens

Blanks put in where they cut no name make no token, so the tokens behind them move by their number
and all else stays (`forall₂_moves_scan`). Main statement: the text then parses to the same
expression, or fails with the same fault, whose index moves with the tokens.
-/

namespace HierarchyLint

namespace Token

variable {i : Nat} {cs ds ws : List Char} {ts : List Token}

/-- The token of a text that begins `k` characters later. -/
def shifted (k : Nat) (t : Token) : Token := { t with index := t.index + k }

theorem Lexed.shifted (h : Lexed i cs ts) (k : Nat) :
    Lexed (i + k) cs (ts.map (Token.shifted k)) := by
  induction h with
  | finish => exact .finish
  | blank hc _ ih =>
    rw [Nat.add_right_comm] at ih
    exact .blank hc ih
  | leftBracket _ ih =>
    rw [Nat.add_right_comm] at ih
    exact .leftBracket ih
  | rightBracket _ ih =>
    rw [Nat.add_right_comm] at ih
    exact .rightBracket ih
  | comma _ ih =>
    rw [Nat.add_right_comm] at ih
    exact .comma ih
  | name hn hcs _ ih =>
    rw [Nat.add_right_comm] at ih
    exact .name hn hcs ih

theorem scan_add (i k : Nat) (cs : List Char) :
    scan (i + k) cs = (scan i cs).map (Token.shifted k) :=
  scan_of_lexed ((lexed_scan i cs).shifted k)

theorem scan_blanks_append (hws : ∀ c ∈ ws, Text.isBlank c = true) (i : Nat) (cs : List Char) :
    scan i (ws ++ cs) = scan (i + ws.length) cs := by
  induction ws generalizing i with
  | nil => rfl
  | cons w ws ih =>
    obtain ⟨hw, hws⟩ := List.forall_mem_cons.1 hws
    rw [List.cons_append, scan, if_pos hw, ih hws, List.length_cons, Nat.add_assoc,
      Nat.add_comm 1]

theorem Seam.blanks_append (h : Seam cs ds) (hws : ∀ c ∈ ws, Text.isBlank c = true) :
    Seam cs (ws ++ ds) := by
  intro c hc d hd
  cases ws with
  | nil => exact h c hc d hd
  | cons w ws =>
    obtain rfl := Option.some.inj hd
    exact fun hcd => not_isName_blank (hws w (List.mem_cons_self ..)) hcd.2

end Token

/-! ## Moved indices -/

/-- The index `j` is the one that the index `i` becomes when `k` characters are put in at the
index `n`. -/
def Moves (n k i j : Nat) : Prop := j = if i < n then i else i + k

theorem moves_of_lt {n i : Nat} (k : Nat) (h : i < n) : Moves n k i i := (if_pos h).symm

theorem moves_of_le {n i : Nat} (k : Nat) (h : n ≤ i) : Moves n k i (i + k) :=
  (if_neg (Nat.not_lt.2 h)).symm

theorem Moves.cast_eq {n k i j : Nat} (h : Moves n k i j) :
    (j : Int) = if (i : Int) < n then (i : Int) else i + k := by
  unfold Moves at h
  split at h
  · rw [h, if_pos (by omega)]
  · rw [h, if_neg (by omega), Int.natCast_add]

/-- The second token is the first one, moved. -/
abbrev Token.Moves (n k : Nat) : Token → Token → Prop := Token.Renames id (HierarchyLint.Moves n k)

/-- Blanks put in between two parts of a text move the tokens of the second part. -/
theorem forall₂_moves_scan {us ws vs : List Char} (hseam : Token.Seam us vs)
    (hws : ∀ c ∈ ws, Text.isBlank c = true) :
    List.Forall₂ (Token.Moves us.length ws.length) (Token.scan 0 (us ++ vs))
      (Token.scan 0 (us ++ ws ++ vs)) := by
  rw [List.append_assoc, Token.scan_append hseam, Token.scan_append (hseam.blanks_append hws),
    Token.scan_blanks_append hws, Token.scan_add _ ws.length, Nat.zero_add]
  refine List.rel_append (List.forall₂_same.2 fun t ht => ?_)
    (List.forall₂_map_right_iff.2 (List.forall₂_same.2 fun t ht => ?_))
  · have hlt := ((Token.lexed_scan 0 us).index_bounds t ht).2
    rw [Nat.zero_add] at hlt
    exact ⟨rfl, fun _ => rfl, moves_of_lt _ hlt⟩
  · have hle := ((Token.lexed_scan us.length vs).index_bounds t ht).1
    exact ⟨rfl, fun _ => rfl, moves_of_le _ hle⟩

namespace TypeExpr

theorem mapNames_id (e : TypeExpr) : e.mapNames id = e := by
  induction e using inductionOnParams with
  | node n ps ih =>
    rw [mapNames_node, List.map_congr_left ih, List.map_id']
    rfl

theorem parse_moves {u w v : String} (hseam : Token.Seam u.toList v.toList)
    (hw : ∀ c ∈ w.toList, Text.isBlank c = true) :
    ParseRenames id (Moves u.length w.length) (u ++ v) (u ++ w ++ v) (parse (u ++ v))
      (parse (u ++ w ++ v)) := by
  have htokens := forall₂_moves_scan hseam hw
  rw [← String.toList_append, ← String.toList_append, ← String.toList_append,
    String.length_toList, String.length_toList] at htokens
  have hsize : Moves u.length w.length (u ++ v).length (u ++ w ++ v).length := by
    have hend := moves_of_le (n := u.length) w.length (Nat.le_add_right u.length v.length)
    rwa [Nat.add_right_comm, ← String.length_append, ← String.length_append,
      ← String.length_append] at hend
  exact parse_renames hsize htokens

/-- Blanks between two parts of a text do not matter, unless they cut a name: with them or without
them the text parses to the same expression, or it fails with the same fault. The index of the
error is the same in front of the blanks, and behind them it grows by their number. -/
theorem parse_insert_blanks {u w v : String}
    (hcut : ∀ c ∈ u.toList.getLast?, ∀ d ∈ v.toList.head?, ¬ (IsName [c] ∧ IsName [d]))
    (hw : ∀ c ∈ w.toList, Text.isBlank c = true) :
    (∀ e, parse (u ++ v) = .ok e ↔ parse (u ++ w ++ v) = .ok e) ∧
    (∀ err, parse (u ++ v) = .error err → err.text = u ++ v ∧
      parse (u ++ w ++ v) = .error ⟨err.fault, u ++ w ++ v,
        if err.index < u.length then err.index else err.index + w.length⟩) := by
  have hparse := parse_moves hcut hw
  generalize parse (u ++ v) = answer at hparse ⊢
  generalize parse (u ++ w ++ v) = answer' at hparse ⊢
  cases hparse with
  | ok e =>
    rw [mapNames_id]
    exact ⟨fun _ => Iff.rfl, nofun⟩
  | error fault hmoves =>
    refine ⟨fun _ => ⟨nofun, nofun⟩, fun err herr => ?_⟩
    cases herr
    rw [hmoves.cast_eq]
    exact ⟨rfl, rfl⟩

/-- A bracket too many is found two characters later with a tab and a wide space behind the comma,
and an open bracket in front of the comma where it was. -/
theorem parse_insert_blanks_behind_comma :
    (∀ c ∈ "\t\u2003".toList, Text.isBlank c = true) ∧
    (Token.Seam "m[k,".toList "l]]".toList ∧
      parse ("m[k," ++ "l]]") = .error ⟨.rightBracket, "m[k,l]]", 6⟩ ∧
      parse ("m[k," ++ "\t\u2003" ++ "l]]") = .error ⟨.rightBracket, "m[k,\t\u2003l]]", 8⟩) ∧
    (Token.Seam "m[k,".toList "l".toList ∧
      parse ("m[k," ++ "l") = .error ⟨.leftBracket, "m[k,l", 1⟩ ∧
      parse ("m[k," ++ "\t\u2003" ++ "l") = .error ⟨.leftBracket, "m[k,\t\u2003l", 1⟩) := by
  have hblank : ∀ c ∈ "\t\u2003".toList, Text.isBlank c = true :=
    List.all_eq_true.1 (by decide)
  have hseam : ∀ ds, Token.Seam "m[k,".toList ds := by
    intro ds c hc d _
    obtain rfl : ',' = c := Option.some.inj hc
    exact fun hcd => not_isName_comma hcd.1
  have hright : parse ("m[k," ++ "l]]") = .error ⟨.rightBracket, "m[k,l]]", 6⟩ :=
    eq_error_of_error? (by decide +kernel)
  have hopen : parse ("m[k," ++ "l") = .error ⟨.leftBracket, "m[k,l", 1⟩ :=
    eq_error_of_error? (by decide +kernel)
  refine ⟨hblank, ⟨hseam _, hright, ?_⟩, ⟨hseam _, hopen, ?_⟩⟩
  · exact ((parse_insert_blanks (hseam _) hblank).2 _ hright).2
  · exact ((parse_insert_blanks (hseam _) hblank).2 _ hopen).2

end TypeExpr

end HierarchyLint
