/-!
# A place in a document

A `Cursor` stands in front of the characters of a document that are not read yet and knows the
line and the column of the next one. Line ends are line feeds, next-line controls and the line and
paragraph separators; the first two are read as a line feed. A byte order mark takes no column.
-/

namespace HierarchyLint.Yaml

def isBreak (c : Char) : Bool :=
  c == '\n' || c == '\u0085' || c == '\u2028' || c == '\u2029'

/-- Whether a word ends here: at a blank, a line end or the end of the document. -/
def isEdge : Option Char → Bool
  | none => true
  | some c => c == ' ' || c == '\t' || isBreak c

def isLineEnd : Option Char → Bool
  | none => true
  | some c => isBreak c

/-- The character that a line end is read as. -/
def breakValue (c : Char) : Char := if c == '\u0085' then '\n' else c

structure Position where
  index : Nat := 0
  line : Nat := 0
  column : Nat := 0
  deriving DecidableEq, Repr

def Position.after (p : Position) (c : Char) : Position :=
  if isBreak c then ⟨p.index + 1, p.line + 1, 0⟩
  else ⟨p.index + 1, p.line, if c = '\uFEFF' then p.column else p.column + 1⟩

/-- The rest of a document, with the place of its first character. -/
structure Cursor where
  rest : List Char
  pos : Position := {}

namespace Cursor

def peek (c : Cursor) : Option Char := c.rest.head?

def peekAt (c : Cursor) (n : Nat) : Option Char := c.rest[n]?

def column (c : Cursor) : Nat := c.pos.column

def next (c : Cursor) : Cursor :=
  match c.rest with
  | [] => c
  | ch :: rest => ⟨rest, c.pos.after ch⟩

def advance (c : Cursor) : Nat → Cursor
  | 0 => c
  | n + 1 => c.next.advance n

/-- The longest run of characters with the property, and the place behind it. -/
def span (c : Cursor) (p : Char → Bool) : List Char × Cursor :=
  let run := c.rest.takeWhile p
  (run, c.advance run.length)

/-- Moves over the longest run of characters with the property. -/
def skipWhile (c : Cursor) (p : Char → Bool) : Cursor := (c.span p).2

def lineBreak? (c : Cursor) : Option (Char × Cursor) :=
  match c.rest with
  | ch :: _ => if isBreak ch then some (breakValue ch, c.next) else none
  | [] => none

/-- Whether a marker of the start or the end of a document comes next. -/
def atMarker (c : Cursor) : Bool :=
  let three := c.rest.take 3
  (three == ['-', '-', '-'] || three == ['.', '.', '.']) && isEdge (c.peekAt 3)

end Cursor

/-- Moves over spaces, comments and line ends; says as well whether a line has ended. `inComment`
tells that the place is in a comment, `broke` that a line has ended before. -/
def gapFrom (inComment broke : Bool) (pos : Position) : List Char → Bool × Cursor
  | [] => (broke, ⟨[], pos⟩)
  | c :: cs =>
    if isBreak c then gapFrom false true (pos.after c) cs
    else if inComment then gapFrom true broke (pos.after c) cs
    else if c = ' ' then gapFrom false broke (pos.after c) cs
    else if c = '#' then gapFrom true broke (pos.after c) cs
    else (broke, ⟨c :: cs, pos⟩)

/-- Moves over what may stand between two tokens. -/
def Cursor.gap (c : Cursor) : Bool × Cursor := gapFrom false false c.pos c.rest

/-- Moves over spaces and a comment up to the end of the line, if nothing else stands there. -/
def Cursor.restOfLine? (c : Cursor) : Option Cursor :=
  let c := c.skipWhile (· == ' ')
  let c := if c.peek = some '#' then c.skipWhile fun ch => !isBreak ch else c
  if isLineEnd c.peek then some c.next else none

end HierarchyLint.Yaml
