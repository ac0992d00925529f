import HierarchyLint.Text.Blank

/-!
# Tokens of a type expression

A text is cut into names, brackets and commas; blanks stand between them and make no token. A
name is a longest run of other characters, so every text has tokens. `scan` goes through the
characters and carries the index of the next one; `tokenize` closes the list with a token that
marks the end of the text.
-/

namespace HierarchyLint

/-- The kinds of token. No list of tokens holds a blank one. -/
inductive TokenKind where
  | name
  | leftBracket
  | rightBracket
  | comma
  | blank
  | finish
  deriving DecidableEq, Repr

def TokenKind.label : TokenKind → String
  | name => "NAME"
  | leftBracket => "LEFT_BRACKET"
  | rightBracket => "RIGHT_BRACKET"
  | comma => "COMMA"
  | blank => "SKIP"
  | finish => "END"

structure Token where
  kind : TokenKind
  text : String
  index : Nat
  deriving DecidableEq, Repr

namespace Token

/-- The token at the end of a text of the given length. -/
def finish (index : Nat) : Token := ⟨.finish, "", index⟩

/-- The kind of the characters that are tokens by themselves. -/
def delimiter? (c : Char) : Option TokenKind :=
  if c = '[' then some .leftBracket
  else if c = ']' then some .rightBracket
  else if c = ',' then some .comma
  else none

def isNameChar (c : Char) : Bool := !Text.isBlank c && (delimiter? c).isNone

/-- The tokens of `cs`, whose first character has the given index. -/
def scan (index : Nat) (cs : List Char) : List Token :=
  match cs with
  | [] => []
  | c :: rest =>
    if Text.isBlank c then scan (index + 1) rest
    else match delimiter? c with
      | some kind => ⟨kind, String.singleton c, index⟩ :: scan (index + 1) rest
      | none =>
        let more := rest.takeWhile isNameChar
        ⟨.name, String.ofList (c :: more), index⟩
          :: scan (index + 1 + more.length) (rest.drop more.length)
termination_by cs.length

end Token

/-- The tokens of a text, the last of which marks its end. -/
def tokenize (text : String) : List Token :=
  Token.scan 0 text.toList ++ [Token.finish text.length]

end HierarchyLint
