import HierarchyLint.Config.Basic

/-!
# The schema of a configuration

A configuration is read from a mapping with at most three fields, each of which may be missing.
`decode` finds all errors: those of the fields in their fixed order, then those of the other keys
in the order of the mapping.
-/

namespace HierarchyLint

inductive SchemaFault where
  | notMapping
  | unknownCycleReporting
  | notSet
  | unknownCheck
  | shapeDisabled
  /-- A value of a suitable type that stands for no truth value. -/
  | unclearBool
  | notBool
  | extraField
  | keyNotString
  deriving DecidableEq, Repr

namespace SchemaFault

/-- The quoted names, with `or` before the last one. -/
def alternatives : List String → String
  | [] => ""
  | [a] => "'" ++ a ++ "'"
  | [a, b] => "'" ++ a ++ "' or '" ++ b ++ "'"
  | a :: rest => "'" ++ a ++ "', " ++ alternatives rest

def label : SchemaFault → String
  | notMapping => "model_type"
  | unknownCycleReporting => "enum"
  | notSet => "set_type"
  | unknownCheck => "enum"
  | shapeDisabled => "value_error"
  | unclearBool => "bool_parsing"
  | notBool => "bool_type"
  | extraField => "extra_forbidden"
  | keyNotString => "invalid_key"

def message : SchemaFault → String
  | notMapping => "Input should be a valid dictionary or instance of ValidationConfig"
  | unknownCycleReporting =>
    "Input should be " ++ alternatives (CycleReporting.all.map CycleReporting.text)
  | notSet => "Input should be a valid set"
  | unknownCheck => "Input should be " ++ alternatives (DiagnosticKind.all.map DiagnosticKind.text)
  | shapeDisabled => "Value error, The hierarchy shape check cannot be disabled."
  | unclearBool => "Input should be a valid boolean, unable to interpret input"
  | notBool => "Input should be a valid boolean"
  | extraField => "Extra inputs are not permitted"
  | keyNotString => "Keys should be strings"

end SchemaFault

inductive SchemaStep where
  | key (name : String)
  | number (n : Int)
  deriving DecidableEq, Repr

structure SchemaError where
  fault : SchemaFault
  place : List SchemaStep
  deriving DecidableEq, Repr

namespace Config

def cycleReportingField : String := "cycle_reporting"

def disabledField : String := "disabled_checks"

def warningsAsErrorsField : String := "warnings_as_errors"

def fieldNames : List String := [cycleReportingField, disabledField, warningsAsErrorsField]

def decodeCycleReporting (v : Value) : Except (List SchemaError) CycleReporting :=
  match v.plain.str?.bind CycleReporting.ofText? with
  | some mode => .ok mode
  | none => .error [⟨.unknownCycleReporting, [.key cycleReportingField]⟩]

/-- The checks that the items name, and an error for every item, counted from `index`, that names
none. -/
def decodeChecks (index : Nat) : List Value → List SchemaError × List DiagnosticKind
  | [] => ([], [])
  | v :: vs =>
    let (errors, checks) := decodeChecks (index + 1) vs
    match v.plain.str?.bind DiagnosticKind.ofText? with
    | some k => (errors, k :: checks)
    | none => (⟨.unknownCheck, [.key disabledField, .number index]⟩ :: errors, checks)

/-- The checks in a list, or in what is taken for one. The check of the shape cannot be one of
them. -/
def decodeDisabled (v : Value) : Except (List SchemaError) (List DiagnosticKind) :=
  match v.plain.items? with
  | none => .error [⟨.notSet, [.key disabledField]⟩]
  | some items =>
    match decodeChecks 0 items with
    | ([], checks) =>
      if .invalidShape ∈ checks then .error [⟨.shapeDisabled, [.key disabledField]⟩]
      else .ok checks.eraseDups
    | (errors, _) => .error errors

/-- The words for the two truth values, in any case of the ASCII letters. -/
def boolOfText? (s : String) : Option Bool :=
  let word := s.map Char.toLower
  if word ∈ ["0", "off", "f", "false", "n", "no"] then some false
  else if word ∈ ["1", "on", "t", "true", "y", "yes"] then some true
  else none

/-- One more than the greatest whole number of 64 bits. -/
def wordBound : Int := 0x8000000000000000

def isWord (i : Int) : Bool := -wordBound ≤ i && i < wordBound

def boolOfInt (i : Int) : Except SchemaFault Bool :=
  if i = 0 then .ok false
  else if i = 1 then .ok true
  else if isWord i then .error .unclearBool
  else .error .notBool

/-- The truth value that a value stands for: one of the words for it, or the number 0 or 1. -/
def boolOfValue : Value → Except SchemaFault Bool
  | .bool b => .ok b
  | .str s =>
    match boolOfText? s with
    | some b => .ok b
    | none => .error .unclearBool
  | .int i => boolOfInt i
  | .float d =>
    match d.toInt? with
    | some i => if i = -wordBound then .error .notBool else boolOfInt i
    | none => .error .notBool
  | _ => .error .notBool

def decodeWarningsAsErrors (v : Value) : Except (List SchemaError) Bool :=
  (boolOfValue v.plain).mapError fun f => [⟨f, [.key warningsAsErrorsField]⟩]

/-- The way to an entry whose key is no string. -/
def stepOfKey : Value → SchemaStep
  | .int i => .number i
  | .bool b => .number (if b then 1 else 0)
  | v => .key v.describe

def keyError? : Value → Option SchemaError
  | .str s => if s ∈ fieldNames then none else some ⟨.extraField, [.key s]⟩
  | key => some ⟨.keyNotString, [stepOfKey key]⟩

def field {α : Type} (key : String) (default : α) (read : Value → Except (List SchemaError) α)
    (entries : List (Value × Value)) : Except (List SchemaError) α :=
  match Value.get? key entries with
  | some v => read v
  | none => .ok default

def errorsOf {α : Type} : Except (List SchemaError) α → List SchemaError
  | .ok _ => []
  | .error es => es

def decode (v : Value) : Except (List SchemaError) Config :=
  match v.entries? with
  | none => .error [⟨.notMapping, []⟩]
  | some entries =>
    let cycles := field cycleReportingField .firstFound decodeCycleReporting entries
    let disabled := field disabledField [] decodeDisabled entries
    let strict := field warningsAsErrorsField false decodeWarningsAsErrors entries
    let others := entries.filterMap fun e => keyError? e.1
    match cycles, disabled, strict, others with
    | .ok c, .ok d, .ok s, [] => .ok ⟨c, d, s⟩
    | _, _, _, _ => .error (errorsOf cycles ++ errorsOf disabled ++ errorsOf strict ++ others)

end Config

end HierarchyLint
