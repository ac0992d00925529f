import HierarchyLint.Text.Choice
import HierarchyLint.Text.Markup
import HierarchyLint.Text.Template
import HierarchyLint.Value.Basic

/-!
# Diagnostics

A diagnostic states one problem of a hierarchy: its kind, how serious it is, and a message as a
template with arguments. The arguments stay values, so that a parse error can still be taken from
them. `cell` is the diagnostic as console markup, with a pointer below the message if there is a
parse error.
-/

namespace HierarchyLint

inductive Severity where
  | error
  | warning
  deriving DecidableEq, Repr

namespace Severity

def all : List Severity := [error, warning]

def text : Severity → String
  | error => "error"
  | warning => "warning"

def ofText? (text : String) : Option Severity := all.find? fun s => s.text == text

def logLevel : Severity → Int
  | error => 40
  | warning => 30

end Severity

/-- The problems that validation looks for, in the order in which it does. -/
inductive DiagnosticKind where
  | invalidShape
  | nameConflict
  | illegalCharacter
  | genericName
  | unparseableSupertype
  | undefinedSupertype
  | circularDependency
  deriving DecidableEq, Repr

namespace DiagnosticKind

def all : List DiagnosticKind :=
  [invalidShape, nameConflict, illegalCharacter, genericName, unparseableSupertype,
   undefinedSupertype, circularDependency]

def text : DiagnosticKind → String
  | invalidShape => "invalid_shape"
  | nameConflict => "name_conflict"
  | illegalCharacter => "illegal_character"
  | genericName => "generic_name"
  | unparseableSupertype => "unparseable_supertype"
  | undefinedSupertype => "undefined_supertype"
  | circularDependency => "circular_dependency"

def ofText? (text : String) : Option DiagnosticKind := all.find? fun k => k.text == text

/-- How serious a problem of the kind is unless the configuration says otherwise. -/
def severity : DiagnosticKind → Severity
  | genericName => .warning
  | _ => .error

end DiagnosticKind

structure Diagnostic where
  kind : DiagnosticKind
  severity : Severity
  template : String
  args : List Value := []

namespace Diagnostic

/-- The template with the arguments in its slots; without arguments it stands as it is. -/
def message (d : Diagnostic) : Except Text.Template.Fault String :=
  if d.args.isEmpty then .ok d.template
  else Text.Template.fill d.template (d.args.map Value.text)

/-- The first parse error among the arguments. -/
def error? (d : Diagnostic) : Option ParseError :=
  d.args.findSome? fun
    | .error e => some e
    | _ => none

/-- The message after the name of the severity. -/
def text (d : Diagnostic) : Except Text.Template.Fault String :=
  d.message.map fun m => d.severity.text ++ ": " ++ m

/-- The pointer of a parse error in console markup, on lines of its own. -/
def pointerMarkup (e : ParseError) : String :=
  "\n[dim]" ++ Text.Markup.escape e.pointer ++ "[/]"

/-- The message in console markup, with the pointer of the parse error below it. -/
def cell (d : Diagnostic) : Except Text.Template.Fault String :=
  d.message.map fun m =>
    Text.Markup.escape m ++ (match d.error? with
      | some e => pointerMarkup e
      | none => "")

end Diagnostic

end HierarchyLint
