import HierarchyLint.File.Tree
import HierarchyLint.Graph.Cycle
import HierarchyLint.Text.Quoted
import HierarchyLint.Text.Similarity

/-!
# Command-line arguments

The command takes one file and options, in any order; two dashes alone end the options, and an
option's value may follow an equals sign. The arguments are first told apart, which fails at the
first bad one; then the options are checked in the order in which they were given first, after
them the file, and last that nothing is left over. A request for help goes before all checks.
-/

namespace HierarchyLint.Cli

inductive Flag where
  | config
  | key
  | cycles
  | strict
  | quiet
  | verbose
  | help
  deriving DecidableEq, Repr

namespace Flag

def all : List Flag := [config, key, cycles, strict, quiet, verbose, help]

def text : Flag → String
  | config => "--config"
  | key => "--key"
  | cycles => "--cycles"
  | strict => "--strict"
  | quiet => "--quiet"
  | verbose => "--verbose"
  | help => "--help"

def takesValue : Flag → Bool
  | config => true
  | key => true
  | cycles => true
  | _ => false

def ofText? (text : String) : Option Flag := all.find? fun f => f.text == text

end Flag

inductive UsageError where
  | noSuchOption (name : String) (similar : List String)
  | missingValue (flag : Flag)
  | unwantedValue (flag : Flag)
  | missingFile
  /-- The file, or the value of the option, that does not exist. -/
  | noSuchFile (flag : Option Flag) (path : String)
  | isDirectory (flag : Option Flag) (path : String)
  | unknownCycles (value : String)
  | extraArguments (args : List String)
  deriving DecidableEq, Repr

namespace UsageError

def fileName : String := "HIERARCHY_FILE"

def valueName : Option Flag → String
  | some flag => flag.text
  | none => fileName

def invalid (name problem : String) : String := "Invalid value for '" ++ name ++ "': " ++ problem

def message : UsageError → String
  | noSuchOption name [] => "No such option: " ++ name
  | noSuchOption name [one] => "No such option: " ++ name ++ " Did you mean " ++ one ++ "?"
  | noSuchOption name similar =>
    "No such option: " ++ name ++ " (Possible options: " ++ ", ".intercalate similar ++ ")"
  | missingValue flag => "Option '" ++ flag.text ++ "' requires an argument."
  | unwantedValue flag => "Option '" ++ flag.text ++ "' does not take a value."
  | missingFile => "Missing argument '" ++ fileName ++ "'."
  | noSuchFile flag path =>
    invalid (valueName flag) ("File " ++ Text.quoted path ++ " does not exist.")
  | isDirectory flag path =>
    invalid (valueName flag) ("File " ++ Text.quoted path ++ " is a directory.")
  | unknownCycles value =>
    let choices := CycleReporting.all.map fun m => Text.quoted m.text
    invalid Flag.cycles.text
      (Text.quoted value ++ " is not one of " ++ ", ".intercalate choices ++ ".")
  | extraArguments [arg] => "Got unexpected extra argument (" ++ arg ++ ")"
  | extraArguments args => "Got unexpected extra arguments (" ++ " ".intercalate args ++ ")"

end UsageError

/-! ## Telling arguments apart -/

structure Arguments where
  /-- The options with their values, in the order in which they were given. -/
  options : List (Flag × String) := []
  /-- The other arguments. -/
  operands : List String := []

namespace Arguments

def addOption (a : Arguments) (flag : Flag) (value : String) : Arguments :=
  { a with options := (flag, value) :: a.options }

def addOperand (a : Arguments) (arg : String) : Arguments :=
  { a with operands := arg :: a.operands }

end Arguments

/-- An option as it is written: its name, and the value behind an equals sign. -/
def splitOption (arg : String) : String × Option String :=
  let cs := arg.toList
  let name := cs.takeWhile (· != '=')
  match cs.drop name.length with
  | _ :: value => (String.ofList name, some (String.ofList value))
  | [] => (arg, none)

/-- The error about an option that does not exist. Of one that begins with a single dash only the
first letter is looked at. -/
def noSuchOption (arg : String) : UsageError :=
  if arg.startsWith "--" then
    let name := (splitOption arg).1
    .noSuchOption name (Text.Similarity.closest name (Flag.all.map Flag.text))
  else .noSuchOption (String.ofList (arg.toList.take 2)) []

def splitArguments : List String → Except UsageError Arguments
  | [] => .ok {}
  | arg :: rest =>
    if arg = "--" then .ok { operands := rest }
    else if arg.startsWith "-" ∧ 1 < arg.length then
      let (name, value?) := splitOption arg
      match Flag.ofText? name with
      | none => .error (noSuchOption arg)
      | some flag =>
        match flag.takesValue, value?, rest with
        | true, some value, rest => (splitArguments rest).map (·.addOption flag value)
        | true, none, value :: rest => (splitArguments rest).map (·.addOption flag value)
        | true, none, [] => .error (.missingValue flag)
        | false, some _, _ => .error (.unwantedValue flag)
        | false, none, rest => (splitArguments rest).map (·.addOption flag "")
    else (splitArguments rest).map (·.addOperand arg)

/-! ## Checking -/

structure Options where
  /-- The path of the hierarchy, as it was given. -/
  file : String
  config : Option String := none
  key : Option String := none
  cycles : Option CycleReporting := none
  strict : Bool := false
  quiet : Bool := false
  verbose : Bool := false
  deriving DecidableEq, Repr

inductive Request where
  | help
  | lint (options : Options)
  deriving DecidableEq, Repr

/-- A path that is given has to lead to a file. -/
def checkFile (t : FileTree) (flag : Option Flag) (path : String) : Except UsageError Unit :=
  match t.find? path with
  | none => .error (.noSuchFile flag path)
  | some (.directory _) => .error (.isDirectory flag path)
  | some (.file _) => .ok ()

def checkOption (t : FileTree) (o : Options) (flag : Flag) (value : String) :
    Except UsageError Options :=
  match flag with
  | .config => (checkFile t (some .config) value).map fun _ => { o with config := some value }
  | .key => .ok { o with key := some value }
  | .cycles =>
    match CycleReporting.ofText? value with
    | some mode => .ok { o with cycles := some mode }
    | none => .error (.unknownCycles value)
  | .strict => .ok { o with strict := true }
  | .quiet => .ok { o with quiet := true }
  | .verbose => .ok { o with verbose := true }
  | .help => .ok o

/-- The options that are given, each once and with its last value, in the order in which they were
given first. -/
def distinctOptions (options : List (Flag × String)) : List (Flag × String) :=
  (options.map Prod.fst).eraseDups.map fun flag =>
    (flag, (options.reverse.lookup flag).getD "")

/-- What the arguments ask for, in the presence of the files. -/
def parse (t : FileTree) (args : List String) : Except UsageError Request := do
  let a ← splitArguments args
  if a.options.any fun o => o.1 = .help then return .help
  let o ← (distinctOptions a.options).foldlM
    (fun o (option : Flag × String) => checkOption t o option.1 option.2) { file := "" }
  match a.operands with
  | [] => throw .missingFile
  | file :: extra => do
    checkFile t none file
    if extra.isEmpty then return .lint { o with file }
    else throw (.extraArguments extra)

end HierarchyLint.Cli
