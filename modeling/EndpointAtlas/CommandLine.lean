import EndpointAtlas.Settings

/-!
The command line. Options are read from left to right, and the first problem decides. The value of an
option may be attached to it with `=` or be the next word, unless that looks like an option itself. A
value is checked when the next option or the root has been recognised, or at the end.
-/

namespace EndpointAtlas

inductive Refusal where
  | helpRequested | unknownArgument | invalidValue | badNumber | repeatedArgument | needlessValue
  deriving DecidableEq, Repr, Inhabited

namespace CommandLine

inductive ValueOption where
  | outputDirectory | inventoryFile | usageFile | top | extension
  deriving DecidableEq, Repr, Inhabited

inductive Flag where
  | lenient | verbose | help
  deriving DecidableEq, Repr, Inhabited

def valueOption? (name : String) : Option ValueOption :=
  [("output-dir", .outputDirectory), ("inventory-file", .inventoryFile),
    ("frequency-file", .usageFile), ("top", .top), ("ext", .extension)].lookup name

def flag? (name : String) : Option Flag :=
  [("lenient", .lenient), ("verbose", .verbose), ("help", .help)].lookup name

def shortFlag? (letter : Char) : Option Flag :=
  if letter == 'v' then some .verbose else if letter == 'h' then some .help else none

/-- A value waiting to be checked: the root, or that of an option, which may still be missing. -/
inductive Pending where
  | root (value : String)
  | option (o : ValueOption) (value : Option String)
  deriving DecidableEq, Repr, Inhabited

structure Progress where
  root : Option String := none
  outputDirectory : Option String := none
  inventoryFile : Option String := none
  usageFile : Option String := none
  top : Option Nat := none
  extensions : List String := []
  lenient : Bool := false
  verbosity : Nat := 0
  rootSeen : Bool := false
  pending : Option Pending := none
  deriving DecidableEq, Repr, Inhabited

def maxNumber : Nat := 18446744073709551615

def digitsValue (cs : List Char) : Option Nat :=
  if !cs.isEmpty && cs.all Char.isDigit then
    some (cs.foldl (fun n d => 10 * n + (d.toNat - 48)) 0)
  else none

def number? (s : String) : Option Nat :=
  let digits := match s.toList with
    | '+' :: cs => cs
    | cs => cs
  (digitsValue digits).filter (· ≤ maxNumber)

def setOnce {α : Type} (old : Option α) (value : Except Refusal α) : Except Refusal (Option α) :=
  match old with
  | some _ => .error .repeatedArgument
  | none => value.map some

/-- A path, which may not be empty. -/
def pathValue (s : String) : Except Refusal String :=
  if s.isEmpty then .error .invalidValue else .ok s

def numberValue (s : String) : Except Refusal Nat :=
  match number? s with
  | some n => .ok n
  | none => .error .badNumber

def setValue (p : Progress) (o : ValueOption) (value : String) : Except Refusal Progress :=
  match o with
  | .outputDirectory =>
    (setOnce p.outputDirectory (pathValue value)).map fun v => { p with outputDirectory := v }
  | .inventoryFile => (setOnce p.inventoryFile (.ok value)).map fun v => { p with inventoryFile := v }
  | .usageFile => (setOnce p.usageFile (.ok value)).map fun v => { p with usageFile := v }
  | .top => (setOnce p.top (numberValue value)).map fun v => { p with top := v }
  | .extension => .ok { p with extensions := p.extensions ++ [value] }

def settle (p : Progress) : Except Refusal Progress :=
  let q := { p with pending := none }
  match p.pending with
  | none => .ok q
  | some (.root value) => (pathValue value).map fun v => { q with root := some v }
  | some (.option _ none) => .error .invalidValue
  | some (.option o (some value)) => setValue q o value

def maxVerbosity : Nat := 255

def setFlag (p : Progress) (f : Flag) : Except Refusal Progress :=
  match settle p with
  | .error e => .error e
  | .ok p =>
    match f with
    | .help => .error .helpRequested
    | .verbose => .ok { p with verbosity := min (p.verbosity + 1) maxVerbosity }
    | .lenient => if p.lenient then .error .repeatedArgument else .ok { p with lenient := true }

def setShortFlags (p : Progress) : List Char → Except Refusal Progress
  | [] => .ok p
  | c :: cs =>
    match shortFlag? c with
    | none => .error .unknownArgument
    | some f =>
      match setFlag p f with
      | .ok p => setShortFlags p cs
      | .error e => .error e

def splitEquals : List Char → List Char × Option (List Char)
  | [] => ([], none)
  | c :: cs =>
    if c == '=' then ([], some cs)
    else
      let (name, value) := splitEquals cs
      (c :: name, value)

def readLong (p : Progress) (cs : List Char) : Except Refusal Progress :=
  let (name, value) := splitEquals cs
  let name := String.ofList name
  match valueOption? name with
  | some o =>
    match settle p, value with
    | .error e, _ => .error e
    | .ok p, some value => setValue p o (.ofList value)
    | .ok p, none => .ok { p with pending := some (.option o none) }
  | none =>
    match flag? name, value with
    | some f, none => setFlag p f
    | some _, some _ => .error .needlessValue
    | none, _ => .error .unknownArgument

def readRoot (p : Progress) (word : String) : Except Refusal Progress :=
  if p.rootSeen then .error .unknownArgument
  else (settle p).map fun p => { p with rootSeen := true, pending := some (.root word) }

/-- Takes a word as the value an option waits for, else as the root. -/
def readValue (p : Progress) (word : String) : Except Refusal Progress :=
  match p.pending with
  | some (.option o none) => .ok { p with pending := some (.option o (some word)) }
  | _ => readRoot p word

def readWord (p : Progress) (word : String) : Except Refusal Progress :=
  match word.toList with
  | '-' :: '-' :: cs => readLong p cs
  | '-' :: c :: cs => setShortFlags p (c :: cs)
  | _ => readValue p word

def readRoots (p : Progress) (words : List String) : Except Refusal Progress :=
  words.foldlM readRoot p

def readWords (p : Progress) : List String → Except Refusal Progress
  | [] => .ok p
  | word :: words =>
    if word == "--" then readRoots p words
    else
      match readWord p word with
      | .ok p => readWords p words
      | .error e => .error e

def Progress.arguments (p : Progress) : Arguments :=
  { root := p.root
    outputDirectory := p.outputDirectory
    inventoryFile := p.inventoryFile.getD Settings.defaultInventoryFile
    usageFile := p.usageFile.getD Settings.defaultUsageFile
    top := p.top.getD Settings.defaultTop
    extensions := p.extensions
    lenient := p.lenient
    verbosity := p.verbosity }

def parse (words : List String) : Except Refusal Arguments :=
  match readWords {} words with
  | .ok p => (settle p).map Progress.arguments
  | .error e => .error e

end CommandLine

end EndpointAtlas
