import HierarchyLint.Text.Quoted

/-!
# Named choices

Some texts have to be one of the names in a closed list. `UnknownChoice` is the error for any
other text; it says which sort of choice was asked for.
-/

namespace HierarchyLint.Text

/-- A text that names none of the choices of its sort. -/
structure UnknownChoice where
  text : String
  sort : String
  deriving DecidableEq, Repr

def UnknownChoice.message (c : UnknownChoice) : String :=
  quoted c.text ++ " is not a valid " ++ c.sort

def choose {α : Type} (sort : String) (find? : String → Option α) (text : String) :
    Except UnknownChoice α :=
  match find? text with
  | some a => .ok a
  | none => .error ⟨text, sort⟩

end HierarchyLint.Text
