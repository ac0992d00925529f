import HierarchyLint.Text.Quoted

/-!
# Errors of type expressions

A malformed expression has one of four faults. An error holds the fault, the whole text and the
index of the place where reading failed; the place of an unmatched left bracket is the bracket.
The fault `malformed` is the general one, which reading never reports.
-/

namespace HierarchyLint

inductive ParseFault where
  | malformed
  | missingName
  | leftBracket
  | rightBracket
  | extraCharacters
  deriving DecidableEq, Repr

namespace ParseFault

def label : ParseFault → String
  | malformed => "TypeParseError"
  | missingName => "MissingTypeNameError"
  | leftBracket => "LeftBracketError"
  | rightBracket => "RightBracketError"
  | extraCharacters => "ExtraCharactersError"

def reason : ParseFault → String
  | malformed => "Malformed type expression"
  | missingName => "Expected a type name"
  | leftBracket => "Unmatched left bracket"
  | rightBracket => "Unmatched right bracket"
  | extraCharacters => "Unexpected extra characters"

end ParseFault

structure ParseError where
  fault : ParseFault
  text : String
  index : Int
  deriving DecidableEq, Repr

namespace ParseError

def message (e : ParseError) : String :=
  e.fault.reason ++ " at index " ++ toString e.index ++ " of '" ++ e.text ++ "'."

/-- The text, and below it a caret under the place of the error. -/
def pointer (e : ParseError) : String :=
  e.text ++ "\n" ++ "".pushn ' ' e.index.toNat ++ "^"

/-- The part of the text from the place on; a negative place counts from the end. -/
def remainder (e : ParseError) : String :=
  let start := if e.index < 0 then (e.text.length + e.index).toNat else e.index.toNat
  String.ofList (e.text.toList.drop start)

/-- The characters that reading left over, where that is the fault. -/
def extra? (e : ParseError) : Option String :=
  if e.fault = .extraCharacters then some e.remainder else none

def describe (e : ParseError) : String :=
  e.fault.label ++ "(" ++ Text.quoted e.text ++ ", " ++ toString e.index ++ ")"

end ParseError

end HierarchyLint
