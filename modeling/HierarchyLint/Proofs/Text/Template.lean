import HierarchyLint.Text.Template

/-!
# When a template can be filled

Whether a template can be filled does not depend on what the texts say: there has to be one text
for each slot, and nothing else may follow a percent sign but another one (`exists_fill_iff`).
-/

namespace HierarchyLint.Text.Template

variable {texts : List String}

/-- The number of slots among the pieces, unless there is a piece that no text can fill. -/
def slotsOf? : List Piece → Option Nat
  | [] => some 0
  | .char _ :: ps => slotsOf? ps
  | .slot _ :: ps => (slotsOf? ps).map (· + 1)
  | .unfinished :: _ => none
  | .unknownSlot _ _ :: _ => none

/-- The number of slots of a template, unless it has a fault that no texts can mend. -/
def slots? (template : String) : Option Nat := slotsOf? (pieces 0 template.toList)

theorem exists_map_ok_iff {α β ε : Type} {x : Except ε α} {f : α → β} :
    (∃ b, x.map f = .ok b) ↔ ∃ a, x = .ok a := by
  cases x with
  | ok a => exact ⟨fun _ => ⟨a, rfl⟩, fun _ => ⟨f a, rfl⟩⟩
  | error e => simp [Except.map]

theorem exists_fillPieces_iff (ps : List Piece) (texts : List String) :
    (∃ cs, fillPieces ps texts = .ok cs) ↔ slotsOf? ps = some texts.length := by
  fun_induction fillPieces ps texts with
  | case1 => simp [slotsOf?]
  | case2 => simp [slotsOf?]
  | case3 texts c ps ih => rw [exists_map_ok_iff, ih, slotsOf?]
  | case4 => simp [slotsOf?]
  | case5 l ps => cases h : slotsOf? ps <;> simp [slotsOf?, h]
  | case6 => simp [slotsOf?]
  | case7 l ps text texts ih =>
    rw [exists_map_ok_iff, ih, slotsOf?, List.length_cons]
    cases slotsOf? ps <;> simp
  | case8 => simp [slotsOf?]

theorem exists_fill_iff (template : String) :
    (∃ text, fill template texts = .ok text) ↔ slots? template = some texts.length := by
  rw [fill, exists_map_ok_iff, exists_fillPieces_iff, slots?]

end HierarchyLint.Text.Template
