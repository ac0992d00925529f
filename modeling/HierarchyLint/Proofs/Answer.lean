/-!
# Computations that may fail

A composed computation has an answer if its parts have one.
-/

namespace HierarchyLint

universe u

variable {α β ε ε' : Type u} {x : Except ε α} {a : α} {b : β} {e : ε}

theorem map_eq_ok_iff {f : α → β} : x.map f = .ok b ↔ ∃ a, x = .ok a ∧ f a = b := by
  cases x <;> simp [Except.map]

theorem map_eq_error_iff {f : α → β} : x.map f = .error e ↔ x = .error e := by
  cases x <;> simp [Except.map]

@[simp] theorem mapError_ok (f : ε → ε') (a : α) : (Except.ok a).mapError f = .ok a := rfl

@[simp] theorem mapError_error (f : ε → ε') (e : ε) :
    (Except.error e : Except ε α).mapError f = .error (f e) := rfl

theorem mapError_eq_ok_iff {f : ε → ε'} : x.mapError f = .ok a ↔ x = .ok a := by
  cases x <;> simp

/-! ## Reading off the outcome -/

section
variable {α ε : Type} {x : Except ε α} {a : α} {e : ε}

theorem eq_ok_of_toOption (h : x.toOption = some a) : x = .ok a := by
  cases x with
  | error e => cases h
  | ok b => rw [Option.some.inj h]

def error? : Except ε α → Option ε
  | .error e => some e
  | .ok _ => none

theorem eq_error_of_error? (h : error? x = some e) : x = .error e := by
  cases x with
  | error e' => rw [Option.some.inj h]
  | ok a => cases h

end

end HierarchyLint
