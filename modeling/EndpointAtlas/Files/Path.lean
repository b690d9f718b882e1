import EndpointAtlas.Text.Dotted

/-!
Paths as they are written: names with slashes between them. Several slashes count as one, and a name
`.` counts only at the start of a path.
-/

namespace EndpointAtlas.Path

open Text

/-- The pieces between the slashes of a path, empty ones included. -/
def pieces : List Char → List (List Char)
  | [] => [[]]
  | c :: cs =>
    if c = '/' then [] :: pieces cs
    else match pieces cs with
      | [] => [[c]]
      | p :: ps => (c :: p) :: ps

def isAbsolute (path : String) : Bool := path.toList.head? == some '/'

/-- The pieces that name something on the way: no empty ones, and `.` only as the first. -/
def isStep (index : Nat) (piece : List Char) : Bool :=
  !piece.isEmpty && (piece != ['.'] || index == 0)

/-- The pieces up to the last one that satisfies `p` at its index, counted from `n`. -/
def upToLast (p : Nat → List Char → Bool) (n : Nat) :
    List (List Char) → List (List Char)
  | [] => []
  | x :: xs =>
    match upToLast p (n + 1) xs with
    | [] => if p n x then [x] else []
    | ys => x :: ys

def joinPieces (ps : List (List Char)) : List Char := List.intercalate ['/'] ps

/-- The last name in a path, if it names something other than its surroundings. -/
def fileName? (path : String) : Option (List Char) :=
  match (upToLast isStep 0 (pieces path.toList)).getLast? with
  | some name => if name == ['.'] || name == ['.', '.'] then none else some name
  | none => none

/-- The path without its last name. The empty path and the root have none. -/
def parent? (path : String) : Option String :=
  match upToLast isStep 0 (pieces path.toList) with
  | [] => none
  | steps =>
    match upToLast isStep 0 steps.dropLast with
    | [] => some (if isAbsolute path then "/" else "")
    | before => some (.ofList (joinPieces before))

/-- What a file name has after its last dot. The dot may not be the first character. -/
def extensionOf (name : List Char) : Option (List Char) :=
  match splitLastDot name with
  | some (stem, ext) => if stem.isEmpty then none else some ext
  | none => none

def nameHasExtension (name : List Char) (extensions : List String) : Bool :=
  match extensionOf name with
  | some ext => extensions.contains (.ofList ext)
  | none => false

def hasExtension (path : String) (extensions : List String) : Bool :=
  match fileName? path with
  | some name => nameHasExtension name extensions
  | none => false

/-- The path that `path` means when it starts from a directory. An absolute path is taken as it is. -/
def join (directory path : String) : String :=
  if isAbsolute path then path
  else if directory.isEmpty || directory.toList.getLast? == some '/' then directory ++ path
  else directory ++ "/" ++ path

end EndpointAtlas.Path
