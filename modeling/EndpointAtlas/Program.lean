import EndpointAtlas.CommandLine
import EndpointAtlas.Project
import EndpointAtlas.Report
import EndpointAtlas.Usage

/-!
A run of the whole program on a file tree: it analyses the source tree at the root, writes the two
reports and prints a summary of the usage. A report that cannot be written does not stop the run.
-/

namespace EndpointAtlas

/-- What a run leaves behind: its exit code, what it printed, what it reported, and the file tree. -/
structure Outcome where
  exitCode : Nat
  output : String
  diagnostics : List String
  files : FileTree
  deriving Inhabited

namespace Program

def currentPlace (s : Surroundings) : Place := FileTree.stepsOf s.currentDirectory

def visibleLines (verbosity : Nat) (events : List Event) : List String :=
  (events.filter fun e => e.severity.threshold ≤ verbosity).map (·.line)

structure Delivery where
  files : FileTree
  output : String
  events : List Event
  deriving Inhabited

/-- Writes the two reports of an analysis. The second is written whether or not the first could be. -/
def deliver (settings : Settings) (current : Place) (t : FileTree) (i : Inventory) : Delivery :=
  let usage := Usage.ofInventory i
  let (t, first) := Report.write t current settings.inventoryPath i.toJson
  let (t, second) := Report.write t current settings.usagePath usage.toJson
  { files := t
    output := (if first.isNone then "JSON file generated successfully\n" else "") ++
      usage.summary settings.top
    events := (first.map Event.inventoryNotWritten).toList ++
      (second.map Event.usageNotWritten).toList }

def carryOut (s : Surroundings) (a : Arguments) (t : FileTree) : Outcome :=
  match a.root with
  | none => ⟨1, "", ["Path not specified"], t⟩
  | some root =>
    let settings := Settings.ofArguments a s
    let current := currentPlace s
    let (analysis, events) := Project.analyze t current root settings.extensions settings.lenient
    let delivery := deliver settings current t analysis.inventory
    { exitCode := 0
      output := delivery.output
      diagnostics := visibleLines a.verbosity
        (events ++ .finished analysis.statistics :: delivery.events)
      files := delivery.files }

def run (s : Surroundings) (words : List String) (t : FileTree) : Except Refusal Outcome :=
  (CommandLine.parse words).map fun a => carryOut s a t

def refusalCode (r : Refusal) : Nat := if r = .helpRequested then 0 else 2

end Program

end EndpointAtlas
