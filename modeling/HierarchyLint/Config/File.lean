import HierarchyLint.Config.Schema
import HierarchyLint.File.Document

/-!
# Configuration files

A configuration is loaded from a document; one that is empty, or whose value counts as nothing,
gives the defaults.
-/

namespace HierarchyLint

inductive ConfigError where
  | load (e : LoadError)
  | invalid (path : String) (errors : List SchemaError)
  deriving DecidableEq, Repr

def SchemaStep.text : SchemaStep → String
  | key name => name
  | number n => toString n

/-- The error on two lines, with its place on the first. -/
def SchemaError.text (e : SchemaError) : String :=
  ".".intercalate (e.place.map SchemaStep.text) ++ "\n  " ++ e.fault.message

namespace ConfigError

def headline (path : String) : String := "Invalid validation config in " ++ path ++ ":"

def message : ConfigError → String
  | load e => e.message
  | invalid path errors => "\n".intercalate (headline path :: errors.map SchemaError.text)

end ConfigError

def FileTree.loadConfig (lib : Yaml.Library) (t : FileTree) (path : Path) :
    Except ConfigError Config :=
  match t.load lib path with
  | .error e => .error (.load e)
  | .ok v =>
    if v.isBlank then .ok {}
    else (Config.decode v).mapError (.invalid path.text)

end HierarchyLint
