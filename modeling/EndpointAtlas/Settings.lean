import EndpointAtlas.Files.Path
import EndpointAtlas.Sorted.Set
import EndpointAtlas.Text.Whitespace

/-!
The settings of a run: which files to read, how to read them, and where the reports go.
-/

namespace EndpointAtlas

open Text

structure Settings where
  extensions : List String
  lenient : Bool
  top : Nat
  inventoryPath : String
  usagePath : String
  deriving DecidableEq, Repr, Inhabited

structure Arguments where
  root : Option String := none
  outputDirectory : Option String := none
  inventoryFile : String
  usageFile : String
  top : Nat
  extensions : List String := []
  lenient : Bool := false
  verbosity : Nat := 0
  deriving DecidableEq, Repr, Inhabited

/-- Where a run takes place: the current directory, and the output directory set by the user for all
runs. -/
structure Surroundings where
  currentDirectory : String
  outputDirectory : Option String := none
  deriving DecidableEq, Repr, Inhabited

namespace Settings

def defaultInventoryFile : String := "controller_dto_mapping.json"

def defaultUsageFile : String := "dto_frequency.json"

def defaultTop : Nat := 10

def defaultExtension : String := "java"

def default : Settings :=
  ⟨[defaultExtension], false, defaultTop, defaultInventoryFile, defaultUsageFile⟩

/-- An extension as it is compared: without white space around it and without dots before it. -/
def cleanExtension (raw : String) : String :=
  .ofList ((trimEnds isWhitespace raw.toList).dropWhile (· == '.'))

/-- The extensions asked for, each once and in ascending order; `java` where there are none. -/
def normalizeExtensions (raw : List String) : List String :=
  match (SortedSet.ofList ((raw.map cleanExtension).filter fun e => !e.isEmpty)).toList with
  | [] => [defaultExtension]
  | extensions => extensions

/-- The directory the reports go to: the one asked for, else the one set for all runs, else the
current one. -/
def outputDirectory (a : Arguments) (s : Surroundings) : String :=
  match a.outputDirectory, s.outputDirectory with
  | some d, _ => d
  | none, some d => if d.isEmpty then s.currentDirectory else d
  | none, none => s.currentDirectory

def ofArguments (a : Arguments) (s : Surroundings) : Settings :=
  let directory := outputDirectory a s
  { extensions := normalizeExtensions a.extensions
    lenient := a.lenient
    top := a.top
    inventoryPath := Path.join directory a.inventoryFile
    usagePath := Path.join directory a.usageFile }

end Settings

end EndpointAtlas
