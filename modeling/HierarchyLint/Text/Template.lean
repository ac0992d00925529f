/-!
# Message templates

A template holds slots, written `%s`, that are filled from left to right by a list of texts; `%%`
stands for a percent sign. A slot may carry a layout between its two characters: flags, a least
width and, after a point, a greatest length. `fill` fails if the slots and the texts differ in
number, and at the first percent sign that begins neither a slot nor a percent sign.
-/

namespace HierarchyLint.Text.Template

inductive Fault where
  | tooFewTexts
  | tooManyTexts
  /-- The template ends inside a slot. -/
  | unfinished
  /-- The character at the index names no kind of slot. -/
  | unknownSlot (c : Char) (index : Nat)
  deriving DecidableEq, Repr

/-- How a text is set in its slot. -/
structure Layout where
  leftAligned : Bool := false
  width : Nat := 0
  limit : Option Nat := none
  deriving DecidableEq, Repr

/-- A template taken apart. -/
inductive Piece where
  | char (c : Char)
  | slot (layout : Layout)
  | unfinished
  | unknownSlot (c : Char) (index : Nat)
  deriving DecidableEq, Repr

/-- The number that the leading digits write, and what follows them. -/
def leadingNumber (cs : List Char) : Nat × List Char :=
  let digits := cs.takeWhile Char.isDigit
  (digits.foldl (fun n d => 10 * n + (d.toNat - 48)) 0, cs.drop digits.length)

/-- The layout at the front of `cs`, and what follows it. -/
def leadingLayout (cs : List Char) : Layout × List Char :=
  let flags := cs.takeWhile fun c => c ∈ [' ', '#', '+', '-', '0']
  let (width, afterWidth) := leadingNumber (cs.drop flags.length)
  let (limit, afterLimit) :=
    match afterWidth with
    | '.' :: rest => let (n, rest) := leadingNumber rest; (some n, rest)
    | rest => (none, rest)
  let size := if afterLimit.head?.any (· ∈ ['h', 'l', 'L']) then 1 else 0
  (⟨flags.contains '-', width, limit⟩, afterLimit.drop size)

theorem length_leadingNumber_le (cs : List Char) :
    (leadingNumber cs).2.length ≤ cs.length := by
  simp [leadingNumber]

theorem length_leadingLayout_le (cs : List Char) :
    (leadingLayout cs).2.length ≤ cs.length := by
  have hw := length_leadingNumber_le
    (cs.drop (cs.takeWhile fun c => c ∈ [' ', '#', '+', '-', '0']).length)
  unfold leadingLayout
  simp only [List.length_drop] at hw ⊢
  split
  · rename_i rest h
    have hl := length_leadingNumber_le rest
    simp only [h, List.length_cons] at hw ⊢
    omega
  · dsimp only
    omega

/-- The pieces of a template whose first character has the given index. -/
def pieces (index : Nat) (cs : List Char) : List Piece :=
  match cs with
  | [] => []
  | '%' :: '%' :: rest => .char '%' :: pieces (index + 2) rest
  | '%' :: rest =>
    match h : leadingLayout rest with
    | (_, []) => [.unfinished]
    | (layout, kind :: after) =>
      let next := index + 1 + (rest.length - after.length)
      have : after.length < rest.length + 1 := by
        have := length_leadingLayout_le rest
        simp only [h, List.length_cons] at this
        omega
      (if kind = 's' then .slot layout else .unknownSlot kind (next - 1)) :: pieces next after
  | c :: rest => .char c :: pieces (index + 1) rest
termination_by cs.length

def Layout.set (l : Layout) (text : String) : List Char :=
  let cs := match l.limit with
    | some n => text.toList.take n
    | none => text.toList
  let padding := List.replicate (l.width - cs.length) ' '
  if l.leftAligned then cs ++ padding else padding ++ cs

def fillPieces : List Piece → List String → Except Fault (List Char)
  | [], [] => .ok []
  | [], _ :: _ => .error .tooManyTexts
  | .char c :: ps, texts => (fillPieces ps texts).map (c :: ·)
  | .unfinished :: _, _ => .error .unfinished
  | .slot _ :: _, [] => .error .tooFewTexts
  | .unknownSlot _ _ :: _, [] => .error .tooFewTexts
  | .slot l :: ps, text :: texts => (fillPieces ps texts).map (l.set text ++ ·)
  | .unknownSlot c i :: _, _ :: _ => .error (.unknownSlot c i)

def fill (template : String) (texts : List String) : Except Fault String :=
  (fillPieces (pieces 0 template.toList) texts).map String.ofList

def Fault.message : Fault → String
  | tooFewTexts => "not enough arguments for format string"
  | tooManyTexts => "not all arguments converted during string formatting"
  | unfinished => "incomplete format"
  | unknownSlot c i =>
    let shown := if 0x20 ≤ c.toNat && c.toNat < 0x7F then c else '?'
    "unsupported format character '" ++ String.singleton shown ++ "' (0x"
      ++ String.ofList (Nat.toDigits 16 c.toNat) ++ ") at index " ++ toString i

end HierarchyLint.Text.Template
