import HierarchyLint.Number.Double
import HierarchyLint.Value.Basic
import HierarchyLint.Yaml.Scalar

/-!
# What a plain scalar means

A plain scalar is a truth value, a number, nothing at all or a moment in time if it is spelled like
one, and a string otherwise. `Tag.ofPlain` decides by the spelling alone; `intValue?` and
`floatValue` read the numbers. Digits may be set apart by underscores, and a number may be written
in parts of sixty, with colons between them.
-/

namespace HierarchyLint.Yaml

inductive Tag where
  | null
  | bool
  | int
  | float
  | string
  | timestamp
  /-- The key under which another mapping is merged in. -/
  | merge
  /-- The key that stands for the mapping itself. -/
  | value
  | sequence
  | mapping
  | set
  | other
  deriving DecidableEq, Repr

/-- The sort that the full name of a tag stands for. -/
def Tag.ofName : String → Tag
  | "tag:yaml.org,2002:null" => null
  | "tag:yaml.org,2002:bool" => bool
  | "tag:yaml.org,2002:int" => int
  | "tag:yaml.org,2002:float" => float
  | "tag:yaml.org,2002:str" => string
  | "tag:yaml.org,2002:seq" => sequence
  | "tag:yaml.org,2002:map" => mapping
  | "tag:yaml.org,2002:set" => set
  | _ => other

/-! ## Spellings -/

def isDigitOrBar (c : Char) : Bool := c.isDigit || c == '_'

/-- What follows a sign. -/
def unsigned : List Char → List Char
  | '+' :: cs => cs
  | '-' :: cs => cs
  | cs => cs

def isNegative (cs : List Char) : Bool := cs.head? == some '-'

/-- What follows a digit and further digits and underscores, if there is a digit. -/
def afterDigits? : List Char → Option (List Char)
  | c :: cs => if c.isDigit then some (cs.dropWhile isDigitOrBar) else none
  | [] => none

/-- What follows the parts of sixty at the front. -/
def afterSixties : List Char → List Char
  | ':' :: a :: b :: rest =>
    if '0' ≤ a ∧ a ≤ '5' ∧ b.isDigit then afterSixties rest
    else if a.isDigit then afterSixties (b :: rest)
    else ':' :: a :: b :: rest
  | [':', a] => if a.isDigit then [] else [':', a]
  | cs => cs

/-- Whether the characters are an exponent or nothing. -/
def isExponent : List Char → Bool
  | [] => true
  | e :: sign :: d :: ds =>
    (e == 'e' || e == 'E') && (sign == '+' || sign == '-') && (d :: ds).all Char.isDigit
  | _ => false

def nullWords : List String := ["~", "null", "Null", "NULL", ""]

def trueWords : List String := ["yes", "Yes", "YES", "true", "True", "TRUE", "on", "On", "ON"]

def falseWords : List String :=
  ["no", "No", "NO", "false", "False", "FALSE", "off", "Off", "OFF"]

/-- Whether the characters spell an integer: binary, octal, decimal, hexadecimal or in parts of
sixty. -/
def isInt (cs : List Char) : Bool :=
  match unsigned cs with
  | ['0'] => true
  | '0' :: 'b' :: d :: ds => (d :: ds).all fun c => c == '0' || c == '1' || c == '_'
  | '0' :: 'x' :: d :: ds => (d :: ds).all fun c => (hexDigit? c).isSome || c == '_'
  | '0' :: ds => ds.all fun c => ('0' ≤ c && c ≤ '7') || c == '_'
  | d :: ds => d.isDigit && (afterSixties (ds.dropWhile isDigitOrBar)).isEmpty
  | [] => false

/-- Whether the characters spell an infinity or no number. -/
def isSpecialFloat (cs : List Char) : Bool :=
  String.ofList (unsigned cs) ∈ [".inf", ".Inf", ".INF"]
    || String.ofList cs ∈ [".nan", ".NaN", ".NAN"]

def isFloat (cs : List Char) : Bool :=
  isSpecialFloat cs
    || (match afterDigits? (unsigned cs) with
      | some ('.' :: rest) => isExponent (rest.dropWhile isDigitOrBar)
      | some (':' :: rest) =>
        match afterSixties (':' :: rest) with
        | '.' :: rest => (rest.dropWhile isDigitOrBar).isEmpty
        | _ => false
      | _ => false)
    || (match cs with
      | '.' :: rest => (afterDigits? rest).any isExponent
      | _ => false)

def afterOneOrTwo? : List Char → Option (List Char)
  | a :: b :: rest =>
    if a.isDigit then some (if b.isDigit then rest else b :: rest) else none
  | [a] => if a.isDigit then some [] else none
  | [] => none

def afterExactly? : Nat → List Char → Option (List Char)
  | 0, cs => some cs
  | n + 1, c :: cs => if c.isDigit then afterExactly? n cs else none
  | _ + 1, [] => none

def afterChar? (c : Char) : List Char → Option (List Char)
  | d :: ds => if d = c then some ds else none
  | [] => none

def isBlankChar (c : Char) : Bool := c == ' ' || c == '\t'

/-- Whether the characters are an offset from universal time or nothing. -/
def isZone (cs : List Char) : Bool :=
  cs.isEmpty ||
    match cs.dropWhile isBlankChar with
    | ['Z'] => true
    | sign :: rest =>
      (sign == '+' || sign == '-') &&
        match afterOneOrTwo? rest with
        | some [] => true
        | some (':' :: rest) => afterExactly? 2 rest == some []
        | _ => false
    | [] => false

def isDate (cs : List Char) : Bool :=
  (do
    let cs ← afterExactly? 4 cs
    let cs ← afterChar? '-' cs
    let cs ← afterExactly? 2 cs
    let cs ← afterChar? '-' cs
    afterExactly? 2 cs) == some []

/-- What follows a time of day. -/
def afterTime? (cs : List Char) : Option (List Char) := do
  let cs ← afterOneOrTwo? cs
  let cs ← afterChar? ':' cs
  let cs ← afterExactly? 2 cs
  let cs ← afterChar? ':' cs
  let cs ← afterExactly? 2 cs
  match cs with
  | '.' :: rest => some (rest.dropWhile Char.isDigit)
  | _ => some cs

def isDateTime (cs : List Char) : Bool :=
  let time? := do
    let cs ← afterExactly? 4 cs
    let cs ← afterChar? '-' cs
    let cs ← afterOneOrTwo? cs
    let cs ← afterChar? '-' cs
    let cs ← afterOneOrTwo? cs
    match cs with
    | c :: rest =>
      if c = 'T' ∨ c = 't' then afterTime? rest
      else if isBlankChar c then afterTime? (rest.dropWhile isBlankChar)
      else none
    | [] => none
  time?.any isZone

/-- The sort that a plain scalar is spelled like. -/
def Tag.ofPlain (text : String) : Tag :=
  let cs := text.toList
  if text ∈ nullWords then null
  else if text ∈ trueWords ∨ text ∈ falseWords then bool
  else if isFloat cs then float
  else if isInt cs then int
  else if isDate cs ∨ isDateTime cs then timestamp
  else if text = "<<" then merge
  else if text = "=" then value
  else string

/-! ## Numbers -/

/-- A number in digits of the base; none without any digit. -/
def digitsValue? (base : Nat) : List Char → Option Nat
  | [] => none
  | cs => cs.foldlM (fun n c => do
      let d ← hexDigit? c
      if d < base then some (base * n + d) else none) 0

/-- The texts between the colons. -/
def sixtyParts (cs : List Char) : List (List Char) :=
  ((String.ofList cs).splitOn ":").map String.toList

/-- A number in parts of sixty. -/
def sixtiesValue? (cs : List Char) : Option Nat :=
  (sixtyParts cs).foldlM (fun n part => (digitsValue? 10 part).map (60 * n + ·)) 0

/-- Why a scalar that is spelled like a number is none: it has no digits in its base. -/
structure NoDigits where
  base : Nat
  text : String
  deriving DecidableEq, Repr

def NoDigits.message (e : NoDigits) : String :=
  "invalid literal for int() with base " ++ toString e.base ++ ": " ++ Text.quoted e.text

def intValue? (cs : List Char) : Except NoDigits Int :=
  let cs := cs.filter (· ≠ '_')
  let digits (base : Nat) (ds : List Char) : Except NoDigits Nat :=
    match digitsValue? base ds with
    | some n => .ok n
    | none => .error ⟨base, String.ofList ds⟩
  let size : Except NoDigits Nat :=
    match unsigned cs with
    | ['0'] => .ok 0
    | '0' :: 'b' :: ds => digits 2 ds
    | '0' :: 'x' :: ds => digits 16 ds
    | '0' :: ds => digits 8 ('0' :: ds)
    | ds =>
      if ds.contains ':' then
        match sixtiesValue? ds with
        | some n => .ok n
        | none => .error ⟨10, String.ofList ds⟩
      else digits 10 ds
  size.map fun n => if isNegative cs then -n else n

/-- A double in parts of sixty, added up from the last part; every sum is rounded. -/
def sixtiesDouble? (cs : List Char) : Option Double :=
  (sixtyParts cs).reverse.foldlM (fun (sum : Double × Nat) part =>
      (Double.ofDigits? false part).map fun d => (sum.1.plus (d.scaleUp sum.2), sum.2 * 60))
    (Double.zero false, 1) |>.map Prod.fst

def floatValue? (cs : List Char) : Option Double :=
  let cs := (cs.filter (· ≠ '_')).map Char.toLower
  let negative := isNegative cs
  let size := unsigned cs
  if size = ".inf".toList then some (.infinite negative)
  else if size = ".nan".toList then some .nan
  else if size.contains ':' then
    (sixtiesDouble? size).map (Double.withSign negative)
  else Double.ofDigits? negative size

end HierarchyLint.Yaml
