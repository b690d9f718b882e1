import EndpointAtlas.Files.Tree

/-!
The source files below a directory: every file, at any depth, whose name has one of the wanted
extensions. They are listed in the order of their places, name by name; links are passed over.
-/

namespace EndpointAtlas.FileTree

def below? : Place → Place → Option Place
  | [], p => some p
  | _ :: _, [] => none
  | n :: top, m :: p => if n = m then below? top p else none

/-- The places of all files below `top`, without `top` itself. -/
def filesBelow (t : FileTree) (top : Place) : List Place :=
  t.entries.toList.filterMap fun e =>
    match e.2, below? top e.1 with
    | .file _, some (name :: rest) => some (name :: rest)
    | _, _ => none

/-- Whether the last name of a place has one of the given extensions. -/
def placeHasExtension (p : Place) (extensions : List String) : Bool :=
  match p.getLast? with
  | some name => Path.nameHasExtension name.toList extensions
  | none => false

/-- Of the places found, in whatever order, those with a wanted extension in ascending order. -/
def selectSources (extensions : List String) (found : List Place) : List Place :=
  (found.filter fun p => placeHasExtension p extensions).mergeSort fun p q => !decide (q < p)

/-- The paths of the source files below the directory that `root` leads to, each starting with `root`
as written. -/
def scan (t : FileTree) (current : Place) (root : String) (extensions : List String) :
    List String :=
  match t.place current root with
  | .ok top =>
    if t.isDirectory top then
      (selectSources extensions (t.filesBelow top)).map fun p => p.foldl Path.join root
    else []
  | .error _ => []

end EndpointAtlas.FileTree
