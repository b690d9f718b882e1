import EndpointAtlas.Endpoint
import EndpointAtlas.Failure

/-!
What a run reports about its progress, and how each report is worded.
-/

namespace EndpointAtlas

inductive Severity where
  | error | warning | info | debug
  deriving DecidableEq, Repr, Inhabited

namespace Severity

def label : Severity → String
  | error => "ERROR"
  | warning => "WARN"
  | info => "INFO"
  | debug => "DEBUG"

/-- How much verbosity it takes to see reports of a severity. -/
def threshold : Severity → Nat
  | error | warning => 0
  | info => 1
  | debug => 2

end Severity

structure Statistics where
  filesDiscovered : Nat := 0
  filesParsed : Nat := 0
  filesFailed : Nat := 0
  interfaces : Nat := 0
  ambiguousInterfaces : Nat := 0
  controllers : Nat := 0
  endpoints : Nat := 0
  controllerCollisions : Nat := 0
  deriving DecidableEq, Repr, Inhabited

namespace Statistics

def fields (s : Statistics) : List (String × Nat) :=
  [("files_discovered", s.filesDiscovered), ("files_parsed", s.filesParsed),
    ("files_failed", s.filesFailed), ("interfaces", s.interfaces),
    ("ambiguous_interfaces", s.ambiguousInterfaces), ("controllers", s.controllers),
    ("endpoints", s.endpoints), ("controller_collisions", s.controllerCollisions)]

def describe (s : Statistics) : String :=
  "AnalysisStats \x7b " ++ ", ".intercalate (s.fields.map fun f => s!"{f.1}: {f.2}") ++ " \x7d"

end Statistics

inductive Event where
  | filesFound (count : Nat) (root : String)
  | fileFailed (path : String) (failure : SourceFailure)
  | ambiguousInterface (simple : String) (qualified : List String)
  | interfaceNotFound (controller reference : String)
  | controllerReplaced (controller : String)
  | endpointRepeated (controller endpoint : String) (kept : Origin)
  | catalogued (interfaces controllers endpoints : Nat)
  | finished (statistics : Statistics)
  | inventoryNotWritten (failure : ReportFailure)
  | usageNotWritten (failure : ReportFailure)
  deriving DecidableEq, Repr, Inhabited

namespace Event

def severity : Event → Severity
  | fileFailed .. | inventoryNotWritten _ | usageNotWritten _ => .error
  | ambiguousInterface .. | controllerReplaced _ => .warning
  | filesFound .. | catalogued .. | finished _ => .info
  | interfaceNotFound .. | endpointRepeated .. => .debug

def area : Event → String
  | filesFound .. | fileFailed .. | ambiguousInterface .. | catalogued .. =>
    "controller_analyzer::analyzer"
  | interfaceNotFound .. => "controller_analyzer::resolve"
  | controllerReplaced _ | endpointRepeated .. => "controller_analyzer::inventory"
  | finished _ | inventoryNotWritten _ | usageNotWritten _ => "controller_analyzer"

def message : Event → String
  | filesFound count root => s!"found {count} source files under {root}"
  | fileFailed path failure => s!"Error parsing file: {path} - {failure.message}"
  | ambiguousInterface simple qualified =>
    s!"interface name {simple} is declared as " ++ ", ".intercalate qualified ++
      "; unqualified references may resolve to the wrong one"
  | interfaceNotFound controller reference =>
    s!"{controller}: interface {reference} not found, skipping"
  | controllerReplaced controller =>
    s!"controller {controller} declared more than once, keeping the later declaration"
  | endpointRepeated controller endpoint kept =>
    s!"{controller}: endpoint {endpoint} declared more than once, keeping the " ++
      s!"{kept.describe} one"
  | catalogued interfaces controllers endpoints =>
    s!"catalogued {interfaces} interfaces, found {controllers} controllers with " ++
      s!"{endpoints} endpoints"
  | finished statistics => statistics.describe
  | inventoryNotWritten failure => s!"Error writing JSON file: {failure.message}"
  | usageNotWritten failure => s!"Error writing DTO frequency JSON file: {failure.message}"

/-- The line printed for an event: its severity, five characters wide, its area and its message. -/
def line (e : Event) : String :=
  let severity := String.ofList (e.severity.label.toList.rightpad 5 ' ')
  s!"[{severity} {e.area}] {e.message}"

end Event

end EndpointAtlas
