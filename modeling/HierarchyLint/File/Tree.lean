import HierarchyLint.File.Path
import HierarchyLint.Text.Quoted

/-!
# Files

A `FileTree` holds files by their paths. A path is looked up component by component, as it is
written: a point stays where it is and two points lead up; in the paths of the tree they may do so
at the front only. Nothing lies below a file.
-/

namespace HierarchyLint

/-- Files by their paths, the latest one first. -/
structure FileTree where
  files : List (Path × List UInt8) := []

namespace FileTree

inductive Entry where
  | file (bytes : List UInt8)
  | directory (path : Path)
  deriving DecidableEq, Repr

def isBelow (directory file : Path) : Bool :=
  directory.root == file.root && directory.parts.isPrefixOf file.parts

/-- The file or directory with exactly this path. -/
def entry? (t : FileTree) (path : Path) : Option Entry :=
  match t.files.lookup path with
  | some bytes => some (.file bytes)
  | none => if t.files.any fun f => isBelow path f.1 then some (.directory path) else none

/-- Goes one component further. Above the top of an absolute path there is the top again; what
lies above that of a relative path, the tree has to know. -/
def step? (t : FileTree) (place : Entry) (component : String) : Option Entry :=
  match place with
  | .file _ => none
  | .directory path =>
    if component = "" ∨ component = "." then some place
    else if component = ".." then
      if path.root = "" ∧ path.parts.all (· == "..") then t.entry? ⟨"", path.parts ++ [".."]⟩
      else some (.directory ⟨path.root, path.parts.dropLast⟩)
    else t.entry? ⟨path.root, path.parts ++ [component]⟩

def find? (t : FileTree) (path : String) : Option Entry :=
  if path.isEmpty then none
  else (Path.components path).foldlM t.step? (.directory ⟨(Path.ofText path).root, []⟩)

inductive AccessFault where
  | notFound
  | notDirectory
  | isDirectory
  deriving DecidableEq, Repr

structure AccessError where
  fault : AccessFault
  path : String
  deriving DecidableEq, Repr

def AccessFault.message : AccessFault → String
  | notFound => "[Errno 2] No such file or directory"
  | notDirectory => "[Errno 20] Not a directory"
  | isDirectory => "[Errno 21] Is a directory"

def AccessError.message (e : AccessError) : String :=
  e.fault.message ++ ": " ++ Text.quoted e.path

/-- Writes a file. Its directory has to exist. -/
def write (t : FileTree) (path : Path) (bytes : List UInt8) : Except AccessError FileTree :=
  let fail (fault : AccessFault) : Except AccessError FileTree := .error ⟨fault, path.text⟩
  match path.parts.dropLast.foldlM t.step? (.directory ⟨path.root, []⟩) with
  | none => fail .notFound
  | some (.file _) => fail .notDirectory
  | some (.directory place) =>
    if path.name = "" ∨ path.name = ".." then fail .isDirectory
    else match t.step? (.directory place) path.name with
      | some (.directory _) => fail .isDirectory
      | _ => .ok ⟨(⟨place.root, place.parts ++ [path.name]⟩, bytes) :: t.files⟩

/-- The tree with the given files, of which later ones replace earlier ones. -/
def ofList (files : List (String × List UInt8)) : FileTree :=
  ⟨(files.map fun f => (Path.ofText f.1, f.2)).reverse⟩

end FileTree

end HierarchyLint
