import HierarchyLint.Yaml.Plain

/-!
# Writing a document

A value is written in block style: the entries of a mapping on lines of their own, indented by two
for every mapping around them, and the items of a sequence behind dashes, at the column of the key
above them. Empty collections are written in flow style. A string is written plainly if it reads
back as the same string, else in single quotes if all its characters show, else in double quotes
with escapes. A key that is empty, long or of several lines is introduced by a question mark.
-/

namespace HierarchyLint.Yaml

/-! ## Scalars -/

inductive Style where
  | plain
  | single
  | double
  deriving DecidableEq, Repr

/-- Whether the character shows by itself and belongs to ASCII, or is a line feed. -/
def isSimple (c : Char) : Bool := c == '\n' || (' ' ≤ c && c ≤ '~')

/-- Whether a character `a` with the first property stands directly in front of one with the
second. -/
def hasPair (p q : Char → Bool) : List Char → Bool
  | a :: b :: rest => (p a && q b) || hasPair p q (b :: rest)
  | _ => false

/-- Whether the characters begin like something that is no plain scalar. -/
def startsLikeMark (cs : List Char) : Bool :=
  let three := cs.take 3
  three == ['-', '-', '-'] || three == ['.', '.', '.']
    || cs.head?.any ("#,[]\x7b\x7d&*!|>'\"%@`".toList.contains ·)
    || (cs.head?.any ("-?:".toList.contains ·) && isEdge cs.tail.head?)

/-- Whether a colon at the end of a word or a hash at the start of one would be read as a mark. -/
def holdsMark (cs : List Char) : Bool :=
  hasPair (· == ':') (fun c => isEdge (some c)) cs || cs.getLast? == some ':'
    || hasPair (fun c => isEdge (some c)) (· == '#') cs

/-- Whether the string can be written without quotes, its meaning apart. -/
def allowsPlain (cs : List Char) : Bool :=
  cs.all isSimple && !cs.any isBreak && !startsLikeMark cs && !holdsMark cs
    && cs.head? != some ' ' && cs.getLast? != some ' '

/-- Whether the string can be written in single quotes: a space beside a line feed would be lost. -/
def allowsSingle (cs : List Char) : Bool :=
  cs.all isSimple && !hasPair (· == ' ') (· == '\n') cs && !hasPair (· == '\n') (· == ' ') cs

def Style.ofString (s : String) : Style :=
  let cs := s.toList
  if Tag.ofPlain s = .string ∧ allowsPlain cs then plain
  else if allowsSingle cs then single
  else double

def upperHex (width n : Nat) : List Char :=
  (List.leftpad width '0' (Nat.toDigits 16 n)).map Char.toUpper

/-- The letter that stands for the character behind a backslash. -/
def escapeLetter? : Char → Option Char
  | '\x00' => some '0'
  | '\x07' => some 'a'
  | '\x08' => some 'b'
  | '\t' => some 't'
  | '\n' => some 'n'
  | '\x0B' => some 'v'
  | '\x0C' => some 'f'
  | '\r' => some 'r'
  | '\x1B' => some 'e'
  | '\x22' => some '\x22'
  | '\\' => some '\\'
  | '\u0085' => some 'N'
  | '\u00A0' => some '_'
  | '\u2028' => some 'L'
  | '\u2029' => some 'P'
  | _ => none

def doubleChar (c : Char) : List Char :=
  match escapeLetter? c with
  | some letter => ['\\', letter]
  | none =>
    let n := c.toNat
    if ' ' ≤ c ∧ c ≤ '~' then [c]
    else if n ≤ 0xFF then '\\' :: 'x' :: upperHex 2 n
    else if n ≤ 0xFFFF then '\\' :: 'u' :: upperHex 4 n
    else '\\' :: 'U' :: upperHex 8 n

def spaces (n : Nat) : List Char := List.replicate n ' '

/-- The characters between single quotes. A run of line feeds has one more than it stands for, and
the line behind it is indented. -/
def singleFrom (indent : Nat) (afterBreak : Bool) : List Char → List Char
  | [] => if afterBreak then spaces indent else []
  | c :: cs =>
    if c = '\n' then
      (if afterBreak then ['\n'] else ['\n', '\n']) ++ singleFrom indent true cs
    else
      (if afterBreak then spaces indent else [])
        ++ (if c = '\x27' then ['\x27', '\x27'] else [c]) ++ singleFrom indent false cs

def stringText (indent : Nat) (s : String) : String :=
  match Style.ofString s with
  | .plain => s
  | .single => String.ofList ('\x27' :: singleFrom indent false s.toList ++ ['\x27'])
  | .double => String.ofList ('\x22' :: s.toList.flatMap doubleChar ++ ['\x22'])

/-- A double keeps a point, so that it does not read as an integer or a string. -/
def doubleText : Double → String
  | .nan => ".nan"
  | .infinite negative => if negative then "-.inf" else ".inf"
  | d =>
    let cs := d.text.toList
    if cs.contains '.' then d.text
    else
      String.ofList (cs.takeWhile (· != 'e') ++ ".0".toList ++ cs.dropWhile (· != 'e'))

/-! ## Order -/

/-- Whether all keys can be compared with each other. -/
def areComparable : List Value → Bool
  | [] => true
  | k :: ks => ks.all (fun other => (k.keyBefore? other).isSome) && areComparable ks

/-- The entries in the order of their keys; unchanged if some keys cannot be compared. -/
def sortEntries (entries : List (Value × Value)) : List (Value × Value) :=
  if areComparable (entries.map Prod.fst) then
    entries.mergeSort fun a b => (b.1.keyBefore? a.1) != some true
  else entries

mutual

/-- The value with the entries of all its mappings in order. -/
def sorted : Value → Value
  | .list items => .list (sortedAll items)
  | .tuple items => .tuple (sortedAll items)
  | .map entries => .map (sortEntries (sortedPairs entries))
  | v => v

def sortedAll : List Value → List Value
  | [] => []
  | v :: vs => sorted v :: sortedAll vs

def sortedPairs : List (Value × Value) → List (Value × Value)
  | [] => []
  | (k, v) :: rest => (sorted k, sorted v) :: sortedPairs rest

end

/-! ## Layout -/

/-- The value on one line, if it is a scalar or an empty collection. -/
def lineText? (indent : Nat) : Value → Option String
  | .null => some "null"
  | .bool b => some (if b then "true" else "false")
  | .int i => some (toString i)
  | .float d => some (doubleText d)
  | .str s => some (stringText indent s)
  | .list [] => some "[]"
  | .tuple [] => some "[]"
  | .map [] => some "\x7b\x7d"
  | .other text _ _ _ => some text
  | _ => none

/-- The length of the short tag of a scalar or an empty collection. -/
def tagLength : Value → Nat
  | .null => 6
  | .bool _ => 6
  | .float _ => 7
  | _ => 5

/-- The text of a key that fits in front of its colon: a scalar on one line, neither empty nor of
128 characters with its tag. -/
def simpleKey? (key : Value) : Option String :=
  match key with
  | .str s =>
    if s.isEmpty ∨ s.toList.any isBreak ∨ 128 ≤ tagLength key + s.length then none
    else lineText? 0 key
  | _ =>
    match lineText? 0 key with
    | some text => if 128 ≤ tagLength key + text.length then none else some text
    | none => none

def newLine (indent : Nat) : String := String.ofList ('\n' :: spaces indent)

mutual

/-- The value behind a mark that ends two columns further in. -/
def nodeText (indent : Nat) : Value → String
  | .list (v :: vs) => itemsText (indent + 2) (v :: vs)
  | .tuple (v :: vs) => itemsText (indent + 2) (v :: vs)
  | .map (e :: es) => entriesText (indent + 2) (e :: es)
  | v => (lineText? (indent + 2) v).getD ""

/-- The value behind the colon of a key at the given column. -/
def valueText (indent : Nat) : Value → String
  | .list (v :: vs) => newLine indent ++ itemsText indent (v :: vs)
  | .tuple (v :: vs) => newLine indent ++ itemsText indent (v :: vs)
  | .map (e :: es) => newLine (indent + 2) ++ entriesText (indent + 2) (e :: es)
  | v => " " ++ (lineText? (indent + 2) v).getD ""

def itemsText (indent : Nat) : List Value → String
  | [] => ""
  | [v] => "- " ++ nodeText indent v
  | v :: vs => "- " ++ nodeText indent v ++ newLine indent ++ itemsText indent vs

/-- The entries of a mapping whose keys stand at the column. -/
def entriesText (indent : Nat) : List (Value × Value) → String
  | [] => ""
  | [e] => entryText indent e
  | e :: es => entryText indent e ++ newLine indent ++ entriesText indent es

def entryText (indent : Nat) : Value × Value → String
  | (key, value) =>
    match simpleKey? key with
    | some text => text ++ ":" ++ valueText indent value
    | none =>
      "? " ++ nodeText indent key ++ newLine indent ++ ": " ++ nodeText indent value

end

def isPlainScalar : Value → Bool
  | .str s => Style.ofString s == .plain
  | .null | .bool _ | .int _ | .float _ => true
  | _ => false

/-- The value as the text of a document. A plain scalar alone is followed by the marker of the end
of the document. -/
def write : Value → String
  | .list (v :: vs) => itemsText 0 (v :: vs) ++ "\n"
  | .tuple (v :: vs) => itemsText 0 (v :: vs) ++ "\n"
  | .map (e :: es) => entriesText 0 (e :: es) ++ "\n"
  | v => (lineText? 2 v).getD "" ++ (if isPlainScalar v then "\n...\n" else "\n")

end HierarchyLint.Yaml
