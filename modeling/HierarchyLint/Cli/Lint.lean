import HierarchyLint.Cli.Arguments
import HierarchyLint.Config.File
import HierarchyLint.Report
import HierarchyLint.Validation

/-!
# The lint command

The command validates the hierarchy in a file and prints what it finds. It works in a fixed order:
the arguments, the configuration, the hierarchy, the validation. The exit status is 0 if nothing
is wrong but warnings, 1 if there are errors, and 2 if the arguments are bad or something cannot
be loaded. An error of another class, such as that of bytes that are no text, stops the command with
status 1 instead.
-/

namespace HierarchyLint.Cli

inductive Line where
  | markup (text : String)
  | report (r : Report)
  deriving DecidableEq, Repr

structure Outcome where
  exit : Nat
  printed : List Line := []
  usageError : Option UsageError := none
  /-- An error that the command does not handle. -/
  escaped : Option LoadError := none
  deriving DecidableEq, Repr

def loadFailureStatus : Nat := 2

/-- The configuration with the changes that the options ask for. -/
def Options.override (o : Options) (c : Config) : Config :=
  { c with
    cycleReporting := o.cycles.getD c.cycleReporting
    warningsAsErrors := o.strict || c.warningsAsErrors }

def loadConfig (lib : Yaml.Library) (t : FileTree) (o : Options) : Except ConfigError Config :=
  match o.config with
  | none => .ok (o.override {})
  | some path => (t.loadConfig lib (Path.ofText path)).map o.override

/-- Whether the command reports the error itself. -/
def isHandled : LoadError → Bool
  | .missingFile _ => true
  | .malformed _ => true
  | .missingKey _ _ => true
  | .directory _ => false
  | .notText _ => false
  | .valueError _ => false

def failWith (message : String) : Outcome :=
  { exit := loadFailureStatus
    printed := [.markup ("[red]" ++ Text.Markup.escape message ++ "[/]")] }

def loadFailure (e : LoadError) : Outcome :=
  if isHandled e then failWith e.message else { exit := 1, escaped := some e }

def configFailure : ConfigError → Outcome
  | .load e => loadFailure e
  | .invalid path errors => failWith (ConfigError.invalid path errors).message

def summary (c : Collector) : String :=
  "Found " ++ toString c.errors.length ++ " error(s) and "
    ++ toString c.warnings.length ++ " warning(s)."

/-- The table of the diagnostics, as far as their messages can be written. -/
def table (ds : List Diagnostic) (file : Path) : List Line :=
  match Report.ofDiagnostics ds file with
  | .ok r => [.report r]
  | .error _ => []

def conclude (o : Options) (c : Collector) : Outcome :=
  if c.diagnostics.isEmpty then
    { exit := 0, printed := [.markup "[green]No problems found.[/]"] }
  else
    { exit := if c.errors.isEmpty then 0 else 1
      printed :=
        (if o.quiet then [] else table c.diagnostics (Path.ofText o.file))
          ++ [.markup (summary c)] }

def lintValue (o : Options) (c : Config) (v : Value) : Outcome :=
  let validator : Validator := { config := c, sink := .collector {} }
  match (validator.validate v).sink with
  | .collector found => conclude o found
  | _ => conclude o {}

def lint (lib : Yaml.Library) (t : FileTree) (o : Options) : Outcome :=
  match loadConfig lib t o with
  | .error e => configFailure e
  | .ok c =>
    match t.loadHierarchy lib (Path.ofText o.file) o.key with
    | .error e => loadFailure e
    | .ok v => lintValue o c v

def run (lib : Yaml.Library) (t : FileTree) (args : List String) : Outcome :=
  match parse t args with
  | .error e => { exit := 2, usageError := some e }
  | .ok .help => { exit := 0 }
  | .ok (.lint o) => lint lib t o

def usageLine (e : UsageError) : String := "Error: " ++ e.message

end HierarchyLint.Cli
