import HierarchyLint.Yaml.Scalar

/-!
# Tokens of a document

A document is cut into tokens: the marks that it writes, and the beginnings and ends of block
collections, which its indentation implies. A mapping key is only known as one when the colon
behind it is found, so the lexer remembers where a key may have begun and puts the missing tokens
in there. Such a key has to stand on one line and within 1024 characters.
-/

namespace HierarchyLint.Yaml

inductive Directive where
  | version (major : Nat)
  /-- From here on the handle stands for the beginning of a tag. -/
  | tagHandle (handle tagStart : String)
  | other
  deriving DecidableEq, Repr

inductive Token where
  | directive (d : Directive)
  | documentStart
  | documentEnd
  | blockSequenceStart
  | blockMappingStart
  | blockEnd
  | flowSequenceStart
  | flowSequenceEnd
  | flowMappingStart
  | flowMappingEnd
  | blockEntry
  | flowEntry
  | key
  | value
  | alias (name : String)
  | anchor (name : String)
  /-- A tag as it is written, with its handle apart. -/
  | tag (handle : Option String) (suffix : String)
  | scalar (text : String) (plain : Bool)
  deriving DecidableEq, Repr

/-- A place where a mapping key may have begun. -/
structure KeyStart where
  /-- The number of tokens in front of the key. -/
  tokenIndex : Nat
  /-- Whether the place lets nothing else begin but a key. -/
  required : Bool
  pos : Position

/-- The state between two tokens. -/
structure Lexer where
  cursor : Cursor
  tokens : Array Token := #[]
  /-- The column of the innermost block collection; it is negative outside all of them. -/
  indent : Int := -1
  /-- The columns of the outer block collections. -/
  outerIndents : List Int := []
  /-- Where a key may have begun in the innermost collection. -/
  keyStart : Option KeyStart := none
  /-- The same for the collections around it, as many as flow collections are open. -/
  outerKeyStarts : List (Option KeyStart) := []
  /-- Whether a key may begin here. -/
  allowsKey : Bool := true

namespace Lexer

def inFlow (l : Lexer) : Bool := !l.outerKeyStarts.isEmpty

def push (l : Lexer) (t : Token) : Lexer := { l with tokens := l.tokens.push t }

def column (l : Lexer) : Int := l.cursor.column

def mark (l : Lexer) (t : Token) (length : Nat) : Lexer :=
  { l.push t with cursor := l.cursor.advance length }

/-! ## Indentation -/

/-- Closes the block collections that lie deeper than the column. -/
def closeTo (column indent : Int) (tokens : Array Token) : List Int → Int × List Int × Array Token
  | [] => (indent, [], tokens)
  | outer :: rest =>
    if column < indent then closeTo column outer (tokens.push .blockEnd) rest
    else (indent, outer :: rest, tokens)

/-- Closes the block collections that end in front of the column; flow collections ignore
indentation. -/
def unwind (l : Lexer) (column : Int) : Lexer :=
  if l.inFlow then l
  else
    let (indent, outerIndents, tokens) := closeTo column l.indent l.tokens l.outerIndents
    { l with indent, outerIndents, tokens }

/-- Opens a block collection at the column if it lies deeper than the innermost one. -/
def deepen (l : Lexer) (column : Int) (tokenIndex : Nat) (t : Token) : Lexer :=
  if l.indent < column then
    { l with
      indent := column
      outerIndents := l.indent :: l.outerIndents
      tokens := l.tokens.insertIdxIfInBounds tokenIndex t }
  else l

/-! ## Keys -/

/-- Whether a key that began at the place cannot be one any more. -/
def isStale (pos : Position) (k : KeyStart) : Bool :=
  k.pos.line ≠ pos.line || 1024 < pos.index - k.pos.index

/-- Forgets a place for a key once it is stale. A required key must not be lost. -/
def refresh? (pos : Position) : Option KeyStart → Option (Option KeyStart)
  | none => some none
  | some k => if !isStale pos k then some (some k) else if k.required then none else some none

def refreshKeys? (l : Lexer) : Option Lexer := do
  let keyStart ← refresh? l.cursor.pos l.keyStart
  let outerKeyStarts ← l.outerKeyStarts.mapM (refresh? l.cursor.pos)
  some { l with keyStart, outerKeyStarts }

/-- Forgets where a key may have begun in the innermost collection. -/
def dropKey? (l : Lexer) : Option Lexer :=
  if l.keyStart.any (·.required) then none else some { l with keyStart := none }

def saveKey? (l : Lexer) : Option Lexer :=
  if l.allowsKey then
    let required := !l.inFlow && l.indent == l.column
    l.dropKey?.map fun l =>
      { l with keyStart := some ⟨l.tokens.size, required, l.cursor.pos⟩ }
  else some l

/-! ## Words -/

def isWordChar (c : Char) : Bool := c.isAlphanum || c == '-' || c == '_'

def isTagChar (c : Char) : Bool :=
  c.isAlphanum || "-;/?:@&=+$,_.!~*'()[]".toList.contains c

/-- Reads the part of a tag behind its handle; a percent sign introduces the bytes of a character,
of which only the ASCII ones are read. -/
def tagText? : Nat → Cursor → Option (List Char × Cursor)
  | 0, _ => none
  | rounds + 1, c =>
    match c.peek with
    | some '%' => do
      let code ← hexValue? (c.next.rest.take 2)
      if code < 0x80 ∧ (c.next.rest.take 2).length = 2 then
        let (more, c) ← tagText? rounds (c.advance 3)
        some (Char.ofNat code :: more, c)
      else none
    | some ch =>
      if isTagChar ch then (tagText? rounds c.next).map fun (more, c) => (ch :: more, c)
      else some ([], c)
    | none => some ([], c)

def tagWord? (c : Cursor) : Option (String × Cursor) :=
  match tagText? (c.rest.length + 1) c with
  | some ([], _) => none
  | some (cs, c) => some (String.ofList cs, c)
  | none => none

/-- Reads a tag handle: an exclamation mark, or a word between two of them. -/
def tagHandle? (c : Cursor) : Option (String × Cursor) :=
  if c.peek ≠ some '!' then none
  else
    let (word, after) := c.next.span isWordChar
    if after.peek = some '!' then some (String.ofList ('!' :: word ++ ['!']), after.next)
    else if word.isEmpty ∧ c.peekAt 1 = some ' ' then some ("!", c.next)
    else none

/-- Reads a tag, up to the blank behind it. -/
def tag? (c : Cursor) : Option (Token × Cursor) := do
  let (t, c) ←
    if c.peekAt 1 = some '<' then do
      let (suffix, c) ← tagWord? (c.advance 2)
      if c.peek = some '>' then some (Token.tag none suffix, c.next) else none
    else if isEdge (c.peekAt 1) then some (Token.tag none "!", c.next)
    else
      let word := c.next.rest.takeWhile fun ch => ch ≠ ' ' && !isBreak ch
      if word.contains '!' then do
        let (handle, c) ← tagHandle? c
        let (suffix, c) ← tagWord? c
        some (Token.tag (some handle) suffix, c)
      else do
        let (suffix, c) ← tagWord? c.next
        some (Token.tag (some "!") suffix, c)
  if isLineEnd c.peek ∨ c.peek = some ' ' then some (t, c) else none

def anchorName? (c : Cursor) : Option (String × Cursor) :=
  let (word, after) := c.span isWordChar
  let ends := isEdge after.peek || after.peek.any fun ch => "?:,]\x7d%@`".toList.contains ch
  if word.isEmpty || !ends then none else some (String.ofList word, after)

def decimal (cs : List Char) : Nat := cs.foldl (fun n c => 10 * n + (c.toNat - 48)) 0

def directive? (c : Cursor) : Option (Directive × Cursor) := do
  let (name, c) := c.next.span isWordChar
  if name.isEmpty ∨ !(isLineEnd c.peek || c.peek == some ' ') then none
  else
    let blank := fun ch : Char => ch == ' '
    match String.ofList name with
    | "YAML" => do
      let (major, c) := (c.skipWhile blank).span Char.isDigit
      if major.isEmpty ∨ c.peek ≠ some '.' then none
      else
        let (minor, c) := c.next.span Char.isDigit
        if minor.isEmpty ∨ !(isLineEnd c.peek || c.peek == some ' ') then none
        else
          let c ← c.restOfLine?
          some (.version (decimal major), c)
    | "TAG" => do
      let (handle, c) ← tagHandle? (c.skipWhile blank)
      if c.peek ≠ some ' ' then none
      else
        let (tagStart, c) ← tagWord? (c.skipWhile blank)
        if !(isLineEnd c.peek || c.peek == some ' ') then none
        else
          let c ← c.restOfLine?
          some (.tagHandle handle tagStart, c)
    | _ => do
      let c ← (c.skipWhile fun ch => !isBreak ch).restOfLine?
      some (.other, c)

/-! ## Tokens -/

/-- A directive or a marker begins or ends a document: no block collection lasts across it. -/
def boundary? (l : Lexer) : Option Lexer :=
  (l.unwind (-1)).dropKey?.map fun l => { l with allowsKey := false }

def openFlow? (l : Lexer) (t : Token) : Option Lexer :=
  l.saveKey?.map fun l =>
    { l.mark t 1 with
      keyStart := none
      outerKeyStarts := l.keyStart :: l.outerKeyStarts
      allowsKey := true }

/-- Closes a flow collection; one has to be open. -/
def closeFlow? (l : Lexer) (t : Token) : Option Lexer :=
  match l.outerKeyStarts with
  | [] => none
  | keyStart :: outerKeyStarts =>
    some { l.mark t 1 with keyStart, outerKeyStarts, allowsKey := false }

def flowEntry? (l : Lexer) : Option Lexer :=
  l.dropKey?.map fun l => { l.mark .flowEntry 1 with allowsKey := true }

def blockEntry? (l : Lexer) : Option Lexer :=
  if l.inFlow || !l.allowsKey then none
  else
    let l := l.deepen l.column l.tokens.size .blockSequenceStart
    l.dropKey?.map fun l => { l.mark .blockEntry 1 with allowsKey := true }

/-- Begins a key that is marked as one. -/
def key? (l : Lexer) : Option Lexer :=
  if !l.inFlow && !l.allowsKey then none
  else
    let l := if l.inFlow then l else l.deepen l.column l.tokens.size .blockMappingStart
    l.dropKey?.map fun l => { l.mark .key 1 with allowsKey := !l.inFlow }

/-- Begins the value of a key, which may have been found only now. -/
def value? (l : Lexer) : Option Lexer :=
  match l.keyStart with
  | some k =>
    let l := { l with
      keyStart := none
      allowsKey := false
      tokens := l.tokens.insertIdxIfInBounds k.tokenIndex .key }
    let l := if l.inFlow then l else l.deepen k.pos.column k.tokenIndex .blockMappingStart
    some (l.mark .value 1)
  | none =>
    if l.inFlow then some { l.mark .value 1 with allowsKey := false }
    else if !l.allowsKey then none
    else
      let l := l.deepen l.column l.tokens.size .blockMappingStart
      some (l.mark .value 1)

/-- Adds a token that may be a key or its beginning. -/
def keyable? (l : Lexer) (read : Cursor → Option (Token × Cursor)) : Option Lexer := do
  let l ← l.saveKey?
  let (t, cursor) ← read l.cursor
  some { l.push t with cursor, allowsKey := false }

def quotedToken? (l : Lexer) (double : Bool) : Option Lexer :=
  l.keyable? fun c =>
    (quoted? double (c.rest.length + 1) c.next).map fun (cs, c) =>
      (.scalar (String.ofList cs) false, c)

def blockToken? (l : Lexer) (fold : Bool) : Option Lexer := do
  let l ← l.dropKey?
  let (cs, cursor) ← block? fold l.indent l.cursor.next
  some { l.push (.scalar (String.ofList cs) false) with cursor, allowsKey := true }

def plainToken? (l : Lexer) : Option Lexer := do
  let l ← l.saveKey?
  let (cs, cursor, broke) := plain l.inFlow (l.indent + 1).toNat l.cursor
  some { l.push (.scalar (String.ofList cs) true) with cursor, allowsKey := broke }

/-- Whether a plain scalar begins with the first of two characters. -/
def startsPlain (flow : Bool) (c : Char) (next : Option Char) : Bool :=
  (!isEdge (some c) && !"-?:,[]\x7b\x7d#&*!|>'\"%@`".toList.contains c)
    || (!isEdge next && (c == '-' || (!flow && (c == '?' || c == ':'))))

/-- Reads the token that begins with the character `c`. -/
def token? (l : Lexer) (c : Char) : Option Lexer :=
  let edge := isEdge (l.cursor.peekAt 1)
  let atLineStart := l.cursor.column = 0
  if c = '%' ∧ atLineStart then do
    let l ← l.boundary?
    let (d, cursor) ← directive? l.cursor
    some { l.push (.directive d) with cursor }
  else if c = '-' ∧ atLineStart ∧ l.cursor.atMarker then
    l.boundary?.map (·.mark .documentStart 3)
  else if c = '.' ∧ atLineStart ∧ l.cursor.atMarker then
    l.boundary?.map (·.mark .documentEnd 3)
  else if c = '[' then l.openFlow? .flowSequenceStart
  else if c = '\x7b' then l.openFlow? .flowMappingStart
  else if c = ']' then l.closeFlow? .flowSequenceEnd
  else if c = '\x7d' then l.closeFlow? .flowMappingEnd
  else if c = ',' then l.flowEntry?
  else if c = '-' ∧ edge then l.blockEntry?
  else if c = '?' ∧ (l.inFlow ∨ edge) then l.key?
  else if c = ':' ∧ (l.inFlow ∨ edge) then l.value?
  else if c = '*' then
    l.keyable? fun cur => (anchorName? cur.next).map fun (name, cur) => (.alias name, cur)
  else if c = '&' then
    l.keyable? fun cur => (anchorName? cur.next).map fun (name, cur) => (.anchor name, cur)
  else if c = '!' then l.keyable? tag?
  else if c = '|' ∧ !l.inFlow then l.blockToken? false
  else if c = '>' ∧ !l.inFlow then l.blockToken? true
  else if c = '\x27' then l.quotedToken? false
  else if c = '\x22' then l.quotedToken? true
  else if startsPlain l.inFlow c (l.cursor.peekAt 1) then l.plainToken?
  else none

/-- Moves to the next token and closes the blocks that end in front of it. -/
def approach? (l : Lexer) : Option Lexer := do
  let (broke, cursor) := l.cursor.gap
  let l ← { l with cursor, allowsKey := l.allowsKey || (broke && !l.inFlow) }.refreshKeys?
  some (l.unwind l.column)

/-- Reads tokens up to the end of the document, as long as each takes some characters. -/
def run? (l : Lexer) : Option (Array Token) := do
  let l' ← l.approach?
  match l'.cursor.peek with
  | none => ((l'.unwind (-1)).dropKey?).map (·.tokens)
  | some c =>
    let next ← l'.token? c
    if next.cursor.rest.length < l.cursor.rest.length then next.run? else none
termination_by l.cursor.rest.length

end Lexer

/-- Whether a document may hold the character as it is. -/
def isAllowed (c : Char) : Bool :=
  let n := c.toNat
  n == 0x09 || n == 0x0A || n == 0x0D || (0x20 ≤ n && n ≤ 0x7E) || n == 0x85
    || (0xA0 ≤ n && n ≤ 0xD7FF) || (0xE000 ≤ n && n ≤ 0xFFFD) || 0x10000 ≤ n

/-- The tokens of a document, if it has any. A byte order mark at its start is no part of it. -/
def tokens? (text : List Char) : Option (List Token) :=
  if !text.all isAllowed then none
  else
    let start : Cursor := ⟨text, {}⟩
    let cursor := if start.peek = some '\uFEFF' then start.next else start
    (Lexer.run? { cursor }).map Array.toList

end HierarchyLint.Yaml
