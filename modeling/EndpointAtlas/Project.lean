import EndpointAtlas.Analysis
import EndpointAtlas.Files.Scan

/-!
The analysis of a source tree. Files that cannot be read or parsed are reported and left out; the
others are analysed in the order of the scan.
-/

namespace EndpointAtlas

def SourceUnit.ofFile (t : FileTree) (current : Place) (lenient : Bool) (path : String) :
    Except SourceFailure SourceUnit :=
  match t.read current path with
  | .error fault => .error (.unreadable path fault)
  | .ok bytes =>
    match SourceUnit.ofBytes lenient bytes with
    | .error e => .error (.malformed e)
    | .ok u => .ok u

namespace Project

/-- The source files of a project, in order, each with its declarations or the reason why there are
none. -/
def sources (t : FileTree) (current : Place) (root : String) (extensions : List String)
    (lenient : Bool) : List (String × Except SourceFailure SourceUnit) :=
  (t.scan current root extensions).map fun path =>
    (path, SourceUnit.ofFile t current lenient path)

def units (files : List (String × Except SourceFailure SourceUnit)) : List SourceUnit :=
  files.filterMap fun f => f.2.toOption

def failures (files : List (String × Except SourceFailure SourceUnit)) : List Event :=
  files.filterMap fun f =>
    match f.2 with
    | .error failure => some (.fileFailed f.1 failure)
    | .ok _ => none

/-- Analyses the source tree at `root`; gives the analysis and all there is to report. -/
def analyze (t : FileTree) (current : Place) (root : String) (extensions : List String)
    (lenient : Bool) : Analysis × List Event :=
  let files := sources t current root extensions lenient
  let us := units files
  let (analysis, events) := Analysis.run us
  let statistics :=
    { analysis.statistics with
      filesDiscovered := files.length
      filesFailed := files.length - us.length }
  ({ analysis with statistics }, .filesFound files.length root :: failures files ++ events)

end Project

end EndpointAtlas
