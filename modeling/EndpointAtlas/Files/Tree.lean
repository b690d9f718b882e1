import EndpointAtlas.Sorted.Map
import EndpointAtlas.Files.Fault
import EndpointAtlas.Files.Path

/-!
File trees. A tree says what stands at each place: a file, a directory or a symbolic link. The parent
of everything in it is a directory. A path is looked up name by name from a current directory, and
links on the way are followed. A tree has no permissions: a file that is found can be read and written.
-/

namespace EndpointAtlas

/-- The names from the top of the tree down. -/
abbrev Place := List String

/-- Places are in the order of their first names that differ. -/
instance : LE Place := List.instLE

instance : Std.LawfulOrderLT Place := inferInstance

inductive Entry where
  | file (content : List UInt8)
  | directory
  | link (target : String)
  deriving DecidableEq, Repr, Inhabited

namespace FileTree

/-- What stands at a place; the top of the tree is a directory. -/
def entryIn (entries : SortedMap Place Entry) (p : Place) : Option Entry :=
  if p.isEmpty then some .directory else entries.get? p

end FileTree

structure FileTree where
  entries : SortedMap Place Entry
  parents : ∀ p ∈ entries.keys, p ≠ [] ∧ FileTree.entryIn entries p.dropLast = some .directory

namespace FileTree

def empty : FileTree := ⟨.empty, by simp [SortedMap.empty, SortedMap.keys]⟩

instance : Inhabited FileTree := ⟨empty⟩

def get? (t : FileTree) (p : Place) : Option Entry := entryIn t.entries p

def isDirectory (t : FileTree) (p : Place) : Bool := t.get? p == some .directory

/-- Whether something may be put at a place: its parent has to be a directory, and a directory makes
way for nothing. -/
def accepts (t : FileTree) (p : Place) : Bool :=
  !p.isEmpty && t.isDirectory p.dropLast && !t.isDirectory p

theorem parents_insert {t : FileTree} {p : Place} (h : t.accepts p) (e : Entry) :
    ∀ q ∈ (t.entries.insert p e).keys,
      q ≠ [] ∧ entryIn (t.entries.insert p e) q.dropLast = some .directory := by
  simp only [accepts, isDirectory, get?, Bool.and_eq_true, Bool.not_eq_true',
    List.isEmpty_eq_false_iff, beq_iff_eq, beq_eq_false_iff_ne] at h
  obtain ⟨⟨hp, hparent⟩, hfree⟩ := h
  have unchanged {r : Place} (hr : r ≠ p) :
      entryIn (t.entries.insert p e) r = entryIn t.entries r := by
    simp [entryIn, SortedMap.get?_insert, hr]
  intro q hq
  rcases SortedMap.mem_keys_insert hq with rfl | hq
  · refine ⟨hp, ?_⟩
    have hlength : 0 < q.length := List.length_pos_iff.2 hp
    have hshorter : q.dropLast ≠ q := by
      intro heq
      have := congrArg List.length heq
      rw [List.length_dropLast] at this
      omega
    rw [unchanged hshorter]
    exact hparent
  · obtain ⟨hne, hdir⟩ := t.parents q hq
    refine ⟨hne, ?_⟩
    rw [unchanged fun h => hfree (h ▸ hdir)]
    exact hdir

def put (t : FileTree) (p : Place) (e : Entry) : FileTree :=
  if h : t.accepts p then ⟨t.entries.insert p e, parents_insert h e⟩ else t

/-- Puts directories at the places above `p` that are free, and then an entry at `p`. -/
def plant (t : FileTree) (p : Place) (e : Entry) : FileTree :=
  let above := (List.range p.length).map fun n => p.take n
  (above.foldl (fun t q => if (t.get? q).isNone then t.put q .directory else t) t).put p e

/-! ### Looking up a path -/

/-- The names to follow in a path. A slash at the end asks for a directory, as `.` does. -/
def stepsOf (path : String) : List String :=
  let pieces := Path.pieces path.toList
  let names := (pieces.filter fun p => !p.isEmpty).map String.ofList
  if pieces.getLast? == some [] && !names.isEmpty then names ++ ["."] else names

/-- Follows names from a directory. `follow` goes on from where a link is met. What the last name
stands for need not exist, and is not followed unless `last` says so. -/
def walkWith (follow : Place → List String → Except Fault Place) (t : FileTree) (last : Bool)
    (here : Place) : List String → Except Fault Place
  | [] => .ok here
  | name :: rest =>
    if !t.isDirectory here then .error .notDirectory
    else if name == "." then walkWith follow t last here rest
    else if name == ".." then walkWith follow t last here.dropLast rest
    else
      let there := here ++ [name]
      match t.get? there with
      | some (.link target) =>
        if rest.isEmpty && !last then .ok there
        else follow (if Path.isAbsolute target then [] else here) (stepsOf target ++ rest)
      | some _ => walkWith follow t last there rest
      | none => if rest.isEmpty then .ok there else .error .notFound

/-- Follows names through at most `links` links. -/
def walk (t : FileTree) (last : Bool) : Nat → Place → List String → Except Fault Place
  | 0 => walkWith (fun _ _ => .error .tooManyLinks) t last
  | links + 1 => walkWith (walk t last links) t last

/-- How many links a path may lead through. -/
def maxLinks : Nat := 40

/-- Where names lead that start at the top for an absolute path, else at the current directory. -/
def follow (t : FileTree) (current : Place) (path : String) (last : Bool) (steps : List String) :
    Except Fault Place :=
  if path.isEmpty then .error .notFound
  else t.walk last maxLinks (if Path.isAbsolute path then [] else current) steps

def place (t : FileTree) (current : Place) (path : String) : Except Fault Place :=
  t.follow current path true (stepsOf path)

def find (t : FileTree) (current : Place) (path : String) : Except Fault Entry :=
  match t.place current path with
  | .ok p => match t.get? p with
    | some e => .ok e
    | none => .error .notFound
  | .error f => .error f

def leadsToDirectory (t : FileTree) (current : Place) (path : String) : Bool :=
  match t.find current path with
  | .ok .directory => true
  | _ => false

/-! ### Reading and writing -/

def read (t : FileTree) (current : Place) (path : String) : Except Fault (List UInt8) :=
  match t.find current path with
  | .ok (.file content) => .ok content
  | .ok _ => .error .isDirectory
  | .error f => .error f

def makeDirectory (t : FileTree) (current : Place) (path : String) : Except Fault FileTree :=
  match t.follow current path false (stepsOf path) with
  | .ok p => if (t.get? p).isSome then .error .occupied else .ok (t.put p .directory)
  | .error f => .error f

/-- Makes one directory unless it is there. -/
def ensureDirectory (t : FileTree) (current : Place) (path : String) :
    FileTree × Option Fault :=
  match t.makeDirectory current path with
  | .ok t => (t, none)
  | .error f => (t, if t.leadsToDirectory current path then none else some f)

def ensureDirectories (current : Place) (fuel : Nat) (t : FileTree) (path : String) :
    FileTree × Option Fault :=
  match fuel with
  | 0 => (t, some .notFound)
  | fuel + 1 =>
    if path.isEmpty then (t, none)
    else
      match ensureDirectory t current path, Path.parent? path with
      | (_, some .notFound), some parent =>
        match ensureDirectories current fuel t parent with
        | (t, none) => ensureDirectory t current path
        | failed => failed
      | made, _ => made

/-- Makes a directory and all that is missing above it. Directories made on the way stay when a later
one cannot be made. -/
def makeDirectories (t : FileTree) (current : Place) (path : String) : FileTree × Option Fault :=
  ensureDirectories current (path.length + 1) t path

/-- Where a file written under a path goes. It may replace a file but no directory. -/
def target (t : FileTree) (current : Place) (path : String) : Except Fault Place :=
  let steps := stepsOf path
  if path.toList.getLast? == some '/' then
    match t.follow current path true (steps.dropLast.dropLast ++ ["."]) with
    | .ok _ => .error .isDirectory
    | .error f => .error f
  else
    match t.follow current path true steps with
    | .ok p => if t.isDirectory p then .error .isDirectory else .ok p
    | .error f => .error f

def write (t : FileTree) (current : Place) (path : String) (content : List UInt8) :
    Except Fault FileTree :=
  (t.target current path).map fun p => t.put p (.file content)

end FileTree

end EndpointAtlas
