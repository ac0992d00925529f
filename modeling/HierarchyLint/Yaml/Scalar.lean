import HierarchyLint.Yaml.Cursor

/-!
# Scalars

The three ways in which a document writes a scalar: in quotes, as a block of indented lines, and
plainly. In each of them a single line end between two words is read as a space and further ones
are kept, except in a literal block, which keeps them all. Every reader returns the text and the
place behind it. The readers that go from line to line count down a number of rounds, for which
the length of the document is always enough.
-/

namespace HierarchyLint.Yaml

/-- The line ends `b` and `more` as they are read between two words. -/
def folded (b : Char) (more : List Char) : List Char :=
  if b ≠ '\n' then b :: more else if more.isEmpty then [' '] else more

/-! ## Quoted scalars -/

/-- The characters that a letter after a backslash stands for. -/
def escapeValue? : Char → Option Char
  | '0' => some '\x00'
  | 'a' => some '\x07'
  | 'b' => some '\x08'
  | 't' => some '\t'
  | '\t' => some '\t'
  | 'n' => some '\n'
  | 'v' => some '\x0B'
  | 'f' => some '\x0C'
  | 'r' => some '\r'
  | 'e' => some '\x1B'
  | ' ' => some ' '
  | '\x22' => some '\x22'
  | '\\' => some '\\'
  | '/' => some '/'
  | 'N' => some '\u0085'
  | '_' => some '\u00A0'
  | 'L' => some '\u2028'
  | 'P' => some '\u2029'
  | _ => none

/-- The number of hexadecimal digits after a backslash and the letter. -/
def escapeWidth? : Char → Option Nat
  | 'x' => some 2
  | 'u' => some 4
  | 'U' => some 8
  | _ => none

def hexDigit? (c : Char) : Option Nat :=
  if '0' ≤ c ∧ c ≤ '9' then some (c.toNat - 48)
  else if 'a' ≤ c ∧ c ≤ 'f' then some (c.toNat - 87)
  else if 'A' ≤ c ∧ c ≤ 'F' then some (c.toNat - 55)
  else none

def hexValue? (cs : List Char) : Option Nat :=
  cs.foldlM (fun n c => (hexDigit? c).map (16 * n + ·)) 0

def charOfCode? (n : Nat) : Option Char := if n.isValidChar then some (Char.ofNat n) else none

/-- The line ends and blanks at the front, as the line ends alone. A document marker may not stand
at the start of a line. -/
def quotedBreaks? : Nat → Cursor → Option (List Char × Cursor)
  | 0, _ => none
  | rounds + 1, c =>
    if c.atMarker then none
    else
      let c := c.skipWhile fun ch => ch == ' ' || ch == '\t'
      match c.lineBreak? with
      | none => some ([], c)
      | some (b, c) => (quotedBreaks? rounds c).map fun (bs, c) => (b :: bs, c)

def escape? (rounds : Nat) (c : Cursor) : Option (List Char × Cursor) := do
  let ch ← c.peek
  match escapeValue? ch, escapeWidth? ch with
  | some value, _ => some ([value], c.next)
  | none, some width =>
    let digits := c.next.rest.take width
    if digits.length < width then none
    else
      let code ← hexValue? digits
      let value ← charOfCode? code
      some ([value], c.next.advance width)
  | none, none =>
    let (_, c) ← c.lineBreak?
    quotedBreaks? rounds c

/-- Reads the rest of a scalar in double (or else single) quotes, with the closing one. -/
def quoted? (double : Bool) : Nat → Cursor → Option (List Char × Cursor)
  | 0, _ => none
  | rounds + 1, c => do
    let ch ← c.peek
    let (part, c) ←
      if ch = '\x22' ∧ double then return ([], c.next)
      else if ch = '\x27' ∧ !double then
        if c.peekAt 1 = some '\x27' then some (['\x27'], c.advance 2)
        else return ([], c.next)
      else if ch = '\\' ∧ double then escape? rounds c.next
      else if ch = ' ' ∨ ch = '\t' ∨ isBreak ch then
        let (blanks, c) := c.span fun ch => ch == ' ' || ch == '\t'
        match c.lineBreak? with
        | none => some (blanks, c)
        | some (b, c) =>
          (quotedBreaks? rounds c).map fun (more, c) => (folded b more, c)
      else some ([ch], c.next)
    let (more, c) ← quoted? double rounds c
    some (part ++ more, c)

/-! ## Block scalars -/

/-- What happens to the line ends behind a block. -/
inductive Chomping where
  | strip
  | clip
  | keep
  deriving DecidableEq, Repr

def chomping? : Option Char → Option Chomping
  | some '+' => some .keep
  | some '-' => some .strip
  | _ => none

/-- The digit that says how far a block is indented; it may not be zero. -/
def indentDigit? : Option Char → Option Nat
  | some c => if c.isDigit then some (c.toNat - 48) else none
  | none => none

/-- Reads the two marks of a block, in either order. -/
def blockMarks? (c : Cursor) : Option (Chomping × Option Nat × Cursor) :=
  let (chomping, indent, c) :=
    match chomping? c.peek with
    | some chomping =>
      match indentDigit? c.next.peek with
      | some n => (chomping, some n, c.advance 2)
      | none => (chomping, none, c.next)
    | none =>
      match indentDigit? c.peek with
      | some n =>
        match chomping? c.next.peek with
        | some chomping => (chomping, some n, c.advance 2)
        | none => (.clip, some n, c.next)
      | none => (.clip, none, c)
  if indent = some 0 then none
  else if isLineEnd c.peek ∨ c.peek = some ' ' then some (chomping, indent, c)
  else none

/-- The line ends in front of the first line of a block, the greatest column among them, and the
place behind them. -/
def blockStart (greatest : Nat) (pos : Position) : List Char → List Char × Nat × Cursor
  | [] => ([], greatest, ⟨[], pos⟩)
  | c :: cs =>
    let pos' := pos.after c
    if c = ' ' then blockStart (max greatest pos'.column) pos' cs
    else if isBreak c then
      let (bs, greatest, c') := blockStart greatest pos' cs
      (breakValue c :: bs, greatest, c')
    else ([], greatest, ⟨c :: cs, pos⟩)

/-- The line ends between two lines of a block, without its indentation. -/
def blockBreaks (indent : Nat) (pos : Position) : List Char → List Char × Cursor
  | [] => ([], ⟨[], pos⟩)
  | c :: cs =>
    if c = ' ' ∧ pos.column < indent then blockBreaks indent (pos.after c) cs
    else if isBreak c then
      let (bs, c') := blockBreaks indent (pos.after c) cs
      (breakValue c :: bs, c')
    else ([], ⟨c :: cs, pos⟩)

/-- The line ends at the end of a block, `b` behind its last line and `more` below that. -/
def Chomping.apply (ch : Chomping) (b more : List Char) : List Char :=
  match ch with
  | strip => []
  | clip => b
  | keep => b ++ more

/-- Reads the lines of a block from its first line on; `breaks` stand in front of it. -/
def blockLines (fold : Bool) (chomping : Chomping) (indent : Nat) :
    Nat → List Char → Cursor → List Char × Cursor
  | 0, _, c => ([], c)
  | rounds + 1, breaks, c =>
    let blankStart := c.peek = some ' ' ∨ c.peek = some '\t'
    let (line, c) := c.span fun ch => !isBreak ch
    let (b, c) :=
      match c.lineBreak? with
      | some (b, c) => ([b], c)
      | none => ([], c)
    let (more, c) := blockBreaks indent c.pos c.rest
    if c.column = indent ∧ c.peek ≠ none then
      let blankNext := c.peek = some ' ' ∨ c.peek = some '\t'
      let seam :=
        if fold ∧ b = ['\n'] ∧ ¬ blankStart ∧ ¬ blankNext then
          if more.isEmpty then [' '] else []
        else b
      let (tail, c) := blockLines fold chomping indent rounds more c
      (breaks ++ line ++ seam ++ tail, c)
    else (breaks ++ line ++ chomping.apply b more, c)

/-- Reads a block scalar behind its first mark. The block lies deeper than `parent`. -/
def block? (fold : Bool) (parent : Int) (c : Cursor) : Option (List Char × Cursor) := do
  let (chomping, mark, c) ← blockMarks? c
  let c ← c.restOfLine?
  let least := (max (parent + 1) 1).toNat
  let (indent, breaks, c) :=
    match mark with
    | some n =>
      let indent := least + n - 1
      let (bs, c) := blockBreaks indent c.pos c.rest
      (indent, bs, c)
    | none =>
      let (bs, greatest, c) := blockStart 0 c.pos c.rest
      (max least greatest, bs, c)
  if c.column = indent ∧ c.peek ≠ none then
    some (blockLines fold chomping indent (c.rest.length + 1) breaks c)
  else some (chomping.apply [] breaks, c)

/-! ## Plain scalars -/

def isFlowMark (c : Char) : Bool := c ∈ [',', '[', ']', '\x7b', '\x7d']

/-- Whether a plain word ends in front of `c`, which `cs` follow. -/
def endsPlain (flow : Bool) (c : Char) (cs : List Char) : Bool :=
  isEdge (some c)
    || (c == ':' && (isEdge cs.head? || (flow && cs.head?.any isFlowMark)))
    || (flow && (c == '?' || isFlowMark c))

/-- The longest run of characters that a plain scalar takes without a blank. -/
def plainRun (flow : Bool) : List Char → List Char
  | [] => []
  | c :: cs => if endsPlain flow c cs then [] else c :: plainRun flow cs

/-- The line ends and spaces at the front, as the line ends alone; nothing if a document marker
follows one of them. -/
def plainBreaks (pos : Position) : List Char → Option (List Char) × Cursor
  | [] => (some [], ⟨[], pos⟩)
  | c :: cs =>
    let here : Cursor := ⟨cs, pos.after c⟩
    if c = ' ' then plainBreaks here.pos cs
    else if isBreak c then
      if here.atMarker then (none, here)
      else
        let (bs, c') := plainBreaks here.pos cs
        (bs.map (breakValue c :: ·), c')
    else (some [], ⟨c :: cs, pos⟩)

/-- What stands between two words of a plain scalar, the place behind it, and whether a line ends
there. Nothing is returned where the scalar has to end. -/
def plainSpaces (c : Cursor) : List Char × Cursor × Bool :=
  let (blanks, c) := c.span (· == ' ')
  match c.lineBreak? with
  | none => (blanks, c, false)
  | some (b, c) =>
    if c.atMarker then ([], c, true)
    else
      match plainBreaks c.pos c.rest with
      | (some more, c) => (folded b more, c, true)
      | (none, c) => ([], c, true)

/-- Reads the words of a plain scalar; `spaces` stand in front of the next one. Says as well
whether a line has ended since the last word. Outside flow collections the words have to stand at
least at the column `indent`. -/
def plainFrom (flow : Bool) (indent : Nat) :
    Nat → List Char → Bool → Cursor → List Char × Cursor × Bool
  | 0, _, broke, c => ([], c, broke)
  | rounds + 1, spaces, broke, c =>
    let word := plainRun flow c.rest
    if c.peek = some '#' ∨ word.isEmpty then ([], c, broke)
    else
      let (spaces', c, broke') := plainSpaces (c.advance word.length)
      if spaces'.isEmpty ∨ c.peek = some '#' ∨ (!flow ∧ c.column < indent) then
        (spaces ++ word, c, broke')
      else
        let (more, c, broke') := plainFrom flow indent rounds spaces' broke' c
        (spaces ++ word ++ more, c, broke')

def plain (flow : Bool) (indent : Nat) (c : Cursor) : List Char × Cursor × Bool :=
  plainFrom flow indent (c.rest.length + 1) [] false c

end HierarchyLint.Yaml
