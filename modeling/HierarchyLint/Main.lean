import HierarchyLint.Cli.Lint
import HierarchyLint.Yaml.Safe

/-!
# The program

Reads the files that the arguments name, runs the lint command on them, and prints its outcome.
-/

open HierarchyLint HierarchyLint.Cli

/-- The texts in the arguments that may be paths. -/
def pathCandidates (args : List String) : List String :=
  args.flatMap fun arg =>
    match splitOption arg with
    | (_, some value) => [arg, value]
    | (_, none) => [arg]

def readFile? (path : String) : IO (Option (String × List UInt8)) := do
  try
    let bytes ← IO.FS.readBinFile path
    return some (path, bytes.toList)
  catch _ => return none

def lineText : Line → List String
  | .markup text => [text]
  | .report r =>
    r.title :: " | ".intercalate r.columns :: r.rows.map fun row => " | ".intercalate row

def usage : String :=
  "usage: [" ++ "] [".intercalate (Flag.all.map Flag.text) ++ "] " ++ UsageError.fileName

def main (args : List String) : IO UInt32 := do
  let files ← (pathCandidates args).filterMapM readFile?
  let tree := FileTree.ofList files
  if let .ok .help := parse tree args then IO.println usage
  let outcome := run Yaml.Library.safe tree args
  for line in outcome.printed do
    for text in lineText line do IO.println text
  if let some e := outcome.usageError then IO.eprintln (usageLine e)
  if let some e := outcome.escaped then IO.eprintln e.message
  return outcome.exit.toUInt32
