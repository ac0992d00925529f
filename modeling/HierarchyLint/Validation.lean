import HierarchyLint.Config.Basic
import HierarchyLint.Diagnostic.Sink
import HierarchyLint.Graph.Cycle
import HierarchyLint.Hierarchy.Supertype

/-!
# Validation

Validation looks for every problem of a hierarchy instead of stopping at the first. A value that
is no mapping has only its shape reported. Otherwise the checks run in a fixed order, each over
the whole hierarchy: names that conflict, illegal characters in names, names of one character,
supertypes that do not parse or are not declared, and cycles. What a check finds is a `Finding`;
the configuration decides whether it becomes a diagnostic, and of which severity.
-/

namespace HierarchyLint

/-- A problem before the configuration is asked. -/
structure Finding where
  kind : DiagnosticKind
  template : String
  args : List Value := []

namespace Finding

def invalidShape : Finding := ⟨.invalidShape, "The hierarchy definition should be an object.", []⟩

/-- The type has the same name, but for case, as the others. -/
def nameConflict (name : String) (others : List Value) : Finding :=
  ⟨.nameConflict, "The type name '%s' conflicts with the type name(s) %s",
    [.str name, .list others]⟩

def illegalCharacter (name sort : String) (c : Char) : Finding :=
  ⟨.illegalCharacter, "The type %s includes an illegal %s character ('%s').",
    [.str name, .str sort, .str (String.singleton c)]⟩

def genericName (name : String) : Finding :=
  ⟨.genericName,
    "The type %s will act like a generic type if used as a connection check, "
      ++ "because it is a single character.",
    [.str name]⟩

def unparseableSupertype (name text : String) (e : ParseError) : Finding :=
  ⟨.unparseableSupertype,
    "The type %s says it fulfills the type %s, but that type could not be parsed: %s",
    [.str name, .str text, .error e]⟩

def undefinedSupertype (name base : String) : Finding :=
  ⟨.undefinedSupertype,
    "The type %s says it fulfills the type %s, but that type is not defined",
    [.str name, .str base]⟩

def circularDependency (r : CycleReport) : Finding :=
  ⟨.circularDependency, "The type %s creates a circular dependency: %s",
    [.str r.typeName, .str r.text]⟩

/-- The diagnostic of the finding, if its check is switched on. -/
def diagnose? (c : Config) (f : Finding) : Option Diagnostic :=
  if c.isEnabled f.kind then some ⟨f.kind, c.severity f.kind, f.template, f.args⟩ else none

end Finding

/-! ## Checks -/

/-- The sorts of characters that no type name may hold. -/
def illegalSort? (c : Char) : Option String :=
  if c = ',' then some "comma"
  else if c = ' ' then some "space"
  else if c = '[' then some "left bracket"
  else if c = ']' then some "right bracket"
  else none

namespace Hierarchy

/-- A finding for every group of names that differ only by case, and for every name that several
keys have. -/
def nameConflicts (h : Hierarchy) : List Finding :=
  (h.caseGroups.filterMap fun
    | [] => none
    | first :: others => some (.nameConflict first (others.map .str)))
  ++ h.duplicates.map fun d => .nameConflict d.1 d.2

/-- A finding for the first illegal character of every name. -/
def illegalCharacters (h : Hierarchy) : List Finding :=
  h.names.filterMap fun name =>
    name.toList.findSome? fun c =>
      (illegalSort? c).map fun sort => .illegalCharacter name sort c

/-- A finding for every name that acts like a generic parameter. -/
def genericNames (h : Hierarchy) : List Finding :=
  (h.names.filter isGenericName).map .genericName

/-- The finding about a reference, if it leads nowhere. -/
def supertypeFinding? (name : String) (r : SupertypeRef) : Option Finding :=
  match r.resolution with
  | .unparseable e => some (.unparseableSupertype name r.text e)
  | .undefined e => some (.undefinedSupertype name e.name)
  | .declared _ _ => none

/-- A finding for every reference that does not parse or leads to no declared type. -/
def badSupertypes (refs : Table (List SupertypeRef)) : List Finding :=
  refs.entries.flatMap fun entry => entry.2.filterMap (supertypeFinding? entry.1)

/-- A finding for every cycle that is to be reported. The search does not run for nothing. -/
def circularDependencies (c : Config) (g : Graph) : List Finding :=
  if c.isEnabled .circularDependency then (g.cycles c.cycleReporting).map .circularDependency
  else []

/-- Everything that the checks find in the hierarchy. -/
def findings (c : Config) (h : Hierarchy) : List Finding :=
  let refs := h.supertypes
  h.nameConflicts ++ h.illegalCharacters ++ h.genericNames ++ badSupertypes refs
    ++ circularDependencies c (.ofSupertypes refs)

end Hierarchy

/-- Everything that the checks find in the value. -/
def findings (c : Config) (v : Value) : List Finding :=
  match Hierarchy.ofValue? v with
  | some h => h.findings c
  | none => [.invalidShape]

def validate (c : Config) (v : Value) : List Diagnostic :=
  (findings c v).filterMap (Finding.diagnose? c)

/-! ## Validators -/

/-- A configuration with a sink that receives the diagnostics of one validation after another. -/
structure Validator where
  config : Config := {}
  sink : Sink := .discard
  /-- The diagnostics of the latest validation. -/
  diagnostics : List Diagnostic := []

namespace Validator

/-- Keeps the diagnostic of the finding and hands it to the sink, if its check is switched on. -/
def report (v : Validator) (f : Finding) : Validator :=
  match f.diagnose? v.config with
  | some d => { v with sink := v.sink.receive d, diagnostics := v.diagnostics ++ [d] }
  | none => v

/-- Validates a value: forgets the diagnostics of the validation before and reports what the checks
find, one finding after another. -/
def validate (v : Validator) (raw : Value) : Validator :=
  (findings v.config raw).foldl report { v with diagnostics := [] }

end Validator

end HierarchyLint
