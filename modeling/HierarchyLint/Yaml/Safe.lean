import HierarchyLint.Yaml.Read
import HierarchyLint.Yaml.Write

/-!
# The library for small documents

The documents that the program meets are small: one piece holds all their bytes, so those that are
no text are found before anything else. Binary data and ordered mappings are refused, and so is a
scalar with a tag that does not fit its spelling.
-/

namespace HierarchyLint.Yaml

def Library.safe : Library where
  read := Yaml.read
  undecodable? bytes :=
    match Text.Utf8.decode bytes with
    | .error f => some f
    | .ok _ => none
  write sortKeys v := Yaml.write (if sortKeys then Yaml.sorted v else v)

end HierarchyLint.Yaml
