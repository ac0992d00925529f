import HierarchyLint.Expr.Basic
import HierarchyLint.Expr.Error
import HierarchyLint.Expr.Token

/-!
# Reading type expressions

The grammar is

    expr := name ( '[' expr ( ',' expr )* ']' )?

`readExpr` goes through the tokens one by one. The parameter lists that are open lie on a stack,
innermost first, so that no nesting is too deep; between two tokens the reader either needs a
name or has just finished an expression. A `Parser` holds the tokens of a text that are left, and
an operation that fails keeps what it has consumed: the offending token is then the current one.
-/

namespace HierarchyLint

structure OpenList where
  /-- The name in front of the bracket. -/
  name : String
  /-- The index of the bracket. -/
  bracket : Nat
  /-- The parameters read so far, latest first. -/
  params : List TypeExpr

namespace OpenList

def add (l : OpenList) (e : TypeExpr) : OpenList := { l with params := e :: l.params }

/-- The expression that the closing bracket completes. -/
def close (l : OpenList) : TypeExpr := .node l.name l.params.reverse

end OpenList

inductive ReadState where
  /-- A type name has to follow. -/
  | needsName
  /-- An expression has ended; after a bare name its parameter list may still open. -/
  | hasExpr (e : TypeExpr) (bare : Bool)

/-- Why reading stopped, and at which index. -/
structure ReadFailure where
  fault : ParseFault
  index : Nat
  deriving DecidableEq, Repr

/-- Reads one expression. `size` is the index of the end of the text. The answer comes with the
tokens that are left. -/
def readExpr (size : Nat) : ReadState → List OpenList → List Token →
    Except ReadFailure TypeExpr × List Token
  | .needsName, [], [] => (.error ⟨.missingName, size⟩, [])
  | .needsName, l :: _, [] => (.error ⟨.leftBracket, l.bracket⟩, [])
  | .needsName, lists, t :: ts =>
    if t.kind = .name then readExpr size (.hasExpr (.leaf t.text) true) lists ts
    else (.error ⟨.missingName, t.index⟩, t :: ts)
  | .hasExpr e _, [], [] => (.ok e, [])
  | .hasExpr _ _, l :: _, [] => (.error ⟨.leftBracket, l.bracket⟩, [])
  | .hasExpr e bare, lists, t :: ts =>
    if bare ∧ t.kind = .leftBracket then
      readExpr size .needsName (⟨e.name, t.index, []⟩ :: lists) ts
    else match lists with
      | [] => (.ok e, t :: ts)
      | l :: outer =>
        if t.kind = .comma then readExpr size .needsName (l.add e :: outer) ts
        else if t.kind = .rightBracket then
          readExpr size (.hasExpr (l.add e).close false) outer ts
        else (.error ⟨.extraCharacters, t.index⟩, t :: ts)

/-- A text of which some tokens have been consumed. -/
structure Parser where
  text : String
  /-- The tokens that are left, without the one that marks the end. -/
  rest : List Token

/-- A token of one kind was required and another one found. -/
structure Mismatch where
  expected : TokenKind
  found : TokenKind
  deriving DecidableEq, Repr

def Mismatch.message (m : Mismatch) : String :=
  "Expected token type " ++ m.expected.label ++ " but found " ++ m.found.label ++ "."

namespace Parser

def ofText (text : String) : Parser := ⟨text, Token.scan 0 text.toList⟩

/-- The token that comes next; once all are consumed, the one that marks the end. -/
def current (p : Parser) : Token := p.rest.headD (Token.finish p.text.length)

/-- Consumes a token of the given kind. The end of the text is never consumed. -/
def take (p : Parser) (kind : TokenKind) : Except Mismatch Token × Parser :=
  if p.current.kind = kind then (.ok p.current, { p with rest := p.rest.tail })
  else (.error ⟨kind, p.current.kind⟩, p)

def error (p : Parser) (f : ReadFailure) : ParseError := ⟨f.fault, p.text, f.index⟩

def typeExpr (p : Parser) : Except ParseError TypeExpr × Parser :=
  let (answer, rest) := readExpr p.text.length .needsName [] p.rest
  (answer.mapError p.error, { p with rest })

/-- Consumes one type expression, after which the text has to end. -/
def parse (p : Parser) : Except ParseError TypeExpr × Parser :=
  match p.typeExpr with
  | (.error e, p') => (.error e, p')
  | (.ok e, p') =>
    match p'.current.kind with
    | .finish => (.ok e, p')
    | .rightBracket => (.error (p'.error ⟨.rightBracket, p'.current.index⟩), p')
    | _ => (.error (p'.error ⟨.extraCharacters, p'.current.index⟩), p')

end Parser

def TypeExpr.parse (text : String) : Except ParseError TypeExpr :=
  (Parser.ofText text).parse.1

/-- The type expression that the text spells, with its names in lower case. -/
def TypeExpr.parseCaseless (text : String) : Except ParseError TypeExpr :=
  (TypeExpr.parse text).map TypeExpr.lowered

end HierarchyLint
