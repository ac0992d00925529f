import HierarchyLint.File.Tree
import HierarchyLint.Hierarchy.Basic
import HierarchyLint.Yaml.Library

/-!
# Documents in files

A document is loaded from a file of UTF-8 text, by whatever library reads documents. Keys may be
required of it; then it has to be a mapping with each of them. A hierarchy may be nested under a
key. A value is exported as the text of a document, and a hierarchy in its normal form, with its
declarations in order.
-/

namespace HierarchyLint

/-- Why a document cannot be loaded. The errors that concern the document name its path. -/
inductive LoadError where
  | missingFile (path : String)
  | directory (e : FileTree.AccessError)
  | notText (f : Text.Utf8.Fault)
  | malformed (path : String)
  | valueError (message : String)
  | missingKey (key path : String)
  deriving DecidableEq, Repr

namespace LoadError

/-- The error in words. A missing key is reported as a quoted text. -/
def message : LoadError → String
  | missingFile path => "Cannot load data from nonexistent YAML file: " ++ path
  | directory e => e.message
  | notText f => f.message
  | malformed path => "Failed to load from YAML file: " ++ path
  | valueError message => message
  | missingKey key path =>
    Text.quoted ("Required key '" ++ key ++ "' was missing in data loaded from " ++ path)

end LoadError

namespace FileTree

/-- The error about the text of a file; one that the library does not count among its own passes as
it is. -/
def readError (path : Path) : Yaml.ReadFault → LoadError
  | .malformed => .malformed path.text
  | .valueError message => .valueError message

def load (lib : Yaml.Library) (t : FileTree) (path : Path) : Except LoadError Value :=
  match t.find? path.text with
  | none => .error (.missingFile path.text)
  | some (.directory _) => .error (.directory ⟨.isDirectory, path.text⟩)
  | some (.file bytes) =>
    match Text.Utf8.decode bytes with
    | .ok cs => (lib.read (Text.Utf8.unifyLineEnds cs)).mapError (readError path)
    | .error _ =>
      match lib.undecodable? bytes with
      | some f => .error (.notText f)
      | none => .error (.malformed path.text)

def keyValue? (key : String) (v : Value) : Option Value :=
  v.entries?.bind (Value.get? key)

/-- The value of the document, which has to hold the keys. -/
def loadWithKeys (lib : Yaml.Library) (t : FileTree) (path : Path) (keys : List String) :
    Except LoadError Value := do
  let v ← t.load lib path
  match keys.find? fun key => (keyValue? key v).isNone with
  | some key => .error (.missingKey key path.text)
  | none => .ok v

/-- The hierarchy in a file, or under a key of its document. -/
def loadHierarchy (lib : Yaml.Library) (t : FileTree) (path : Path) (key : Option String) :
    Except LoadError Value :=
  match key with
  | none => t.load lib path
  | some key => do
    let v ← t.load lib path
    match keyValue? key v with
    | some inner => .ok inner
    | none => .error (.missingKey key path.text)

def exportValue (lib : Yaml.Library) (t : FileTree) (path : Path) (sortKeys : Bool) (v : Value) :
    Except AccessError FileTree :=
  t.write path (lib.write sortKeys v).toUTF8.toList

def exportHierarchy (lib : Yaml.Library) (t : FileTree) (path : Path) (h : Hierarchy) :
    Except AccessError FileTree :=
  t.exportValue lib path false h.toValue

end FileTree

end HierarchyLint
