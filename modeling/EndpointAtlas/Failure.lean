import EndpointAtlas.Declaration.Source
import EndpointAtlas.Files.Fault

/-!
Why a source file was not analysed, and why a report was not written or read.
-/

namespace EndpointAtlas

inductive SourceFailure where
  | unreadable (path : String) (fault : Fault)
  | malformed (error : SyntaxError)
  deriving DecidableEq, Repr, Inhabited

def SourceFailure.message : SourceFailure → String
  | unreadable path fault => s!"failed to read {path}: {fault.message}"
  | malformed error => error.message

/-- What could not be done with a report. -/
inductive ReportStep where
  | makeDirectory | create | open | parse
  deriving DecidableEq, Repr, Inhabited

namespace ReportStep

def describe : ReportStep → String
  | makeDirectory => "Failed to create directory"
  | create => "Failed to create report file"
  | .open => "Failed to open report file"
  | parse => "Failed to parse report file"

end ReportStep

/-- A step that failed at a path; a text that could not be parsed gives no fault. -/
structure ReportFailure where
  step : ReportStep
  path : String
  fault : Option Fault
  deriving DecidableEq, Repr, Inhabited

namespace ReportFailure

def summary (f : ReportFailure) : String := s!"{f.step.describe}: {f.path}"

def message (f : ReportFailure) : String :=
  match f.fault with
  | some fault => s!"{f.summary}: {fault.message}"
  | none => f.summary

end ReportFailure

end EndpointAtlas
