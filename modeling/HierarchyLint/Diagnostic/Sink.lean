import HierarchyLint.Diagnostic.Basic

/-!
# Receivers of diagnostics

Validation hands every diagnostic to a sink. A collector keeps them all, in order; a log keeps a
record of those whose level reaches its threshold. `LogSetup` is the state of the program's own
logging, which each set-up changes but to which it adds an output only once.
-/

namespace HierarchyLint

structure Collector where
  diagnostics : List Diagnostic := []

namespace Collector

def receive (c : Collector) (d : Diagnostic) : Collector := ⟨c.diagnostics ++ [d]⟩

def size (c : Collector) : Nat := c.diagnostics.length

def ofSeverity (c : Collector) (s : Severity) : List Diagnostic :=
  c.diagnostics.filter fun d => d.severity = s

def errors (c : Collector) : List Diagnostic := c.ofSeverity .error

def warnings (c : Collector) : List Diagnostic := c.ofSeverity .warning

def ofKind (c : Collector) (k : DiagnosticKind) : List Diagnostic :=
  c.diagnostics.filter fun d => d.kind = k

/-- The messages of the diagnostics, unless one of them cannot be written. -/
def messages (c : Collector) : Except Text.Template.Fault (List String) :=
  c.diagnostics.mapM Diagnostic.message

end Collector

structure LogRecord where
  level : Int
  template : String
  args : List Value

namespace LogRecord

def ofDiagnostic (d : Diagnostic) : LogRecord := ⟨d.severity.logLevel, d.template, d.args⟩

/-- The template with the arguments in its slots. A mapping that is the only argument need not have
a slot, for a log takes its entries for the arguments, unless it has none. -/
def message (r : LogRecord) : Except Text.Template.Fault String :=
  if r.args.isEmpty then .ok r.template
  else match r.args.map Value.entries?, Text.Template.fill r.template (r.args.map Value.text) with
    | [some (_ :: _)], .error .tooManyTexts => Text.Template.fill r.template []
    | _, filled => filled

end LogRecord

/-- A log that keeps the records of at least its threshold. -/
structure Log where
  threshold : Int
  records : List LogRecord := []

namespace Log

def receive (l : Log) (d : Diagnostic) : Log :=
  let r := LogRecord.ofDiagnostic d
  if l.threshold ≤ r.level then { l with records := l.records ++ [r] } else l

end Log

inductive Sink where
  | discard
  | collector (c : Collector)
  | log (l : Log)

def Sink.receive : Sink → Diagnostic → Sink
  | discard, _ => discard
  | collector c, d => collector (c.receive d)
  | log l, d => log (l.receive d)

/-- The level and the number of outputs of the program's own log. -/
structure LogSetup where
  level : Int := 0
  outputs : Nat := 0
  deriving DecidableEq, Repr

def LogSetup.info : Int := 20

/-- Sets the level, and adds the console as an output unless there is one. -/
def LogSetup.configure (s : LogSetup) (level : Int) : LogSetup :=
  ⟨level, max s.outputs 1⟩

end HierarchyLint
