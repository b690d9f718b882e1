import EndpointAtlas.Syntax.ItemSet
import EndpointAtlas.Syntax.Lexeme
import EndpointAtlas.Syntax.Tree

/-!
A reading of the source so far. Its stacks are the ways to divide the text before its place into
constructs that agree on where the reading stands; each frame of a stack holds one piece of the text, as
a tree, and the standpoint after it.
-/

namespace EndpointAtlas.Syntax

open Grammar

/-- One piece of the text and what holds after it: the standpoint, and totals over the stack up to here.
The piece is absent at the bottom and where a reading lost its place. -/
structure Frame where
  state : ItemSet
  piece : Option (Label × Tree)
  reach : Extent
  cost : Nat
  nodes : Nat
  bias : Int
  deriving Repr, Inhabited

/-- The topmost frame comes first. -/
abbrev Stack := List Frame

namespace Frame

def isExtra (f : Frame) : Bool :=
  match f.piece with
  | some (label, _) => label.extra
  | none => false

end Frame

namespace Stack

def bottom : Stack := [⟨.start, none, .zero, 0, 0, 0⟩]

def top (s : Stack) : Frame := s.headD default

def push (s : Stack) (label : Label) (tree : Tree) (state : ItemSet) : Stack :=
  let f := top s
  let sum := tree.summary
  ⟨state, some (label, tree), f.reach + (sum.gap + sum.own), f.cost + sum.cost,
    f.nodes + tree.weight, f.bias + sum.bias⟩ :: s

/-- Marks that the place in the grammar is lost from here on. -/
def lose (s : Stack) : Stack := { top s with state := .lost, piece := none } :: s

/-- Takes frames off a stack until `n` of them are no extras: their pieces in text order and the stack
below. -/
def pop : Nat → Stack → List (Label × Tree) → Option (List (Label × Tree) × Stack)
  | 0, s, acc => some (acc, s)
  | _ + 1, [], _ => none
  | n + 1, f :: s, acc =>
    match f.piece with
    | some piece => pop (if piece.1.extra then n + 1 else n) s (piece :: acc)
    | none => if s.isEmpty then none else pop n s acc

/-- The extras on top of a stack, in text order, and the stack below them. -/
def popExtras : Stack → List (Label × Tree) → List (Label × Tree) × Stack
  | [], acc => (acc, [])
  | f :: s, acc =>
    match f.piece with
    | some piece => if piece.1.extra then popExtras s (piece :: acc) else (acc, f :: s)
    | none => (acc, f :: s)

def pieces (s : Stack) : List (Label × Tree) :=
  s.foldl (fun acc f => match f.piece with
    | some piece => piece :: acc
    | none => acc) []

def splitExtras (pieces : List (Label × Tree)) : List (Label × Tree) × List (Label × Tree) :=
  let extras := (pieces.reverse.takeWhile fun p => p.1.extra).reverse
  (pieces.take (pieces.length - extras.length), extras)

private def symbolOf (f : Frame) : Option Symbol := f.piece.bind fun p => p.2.symbol?

/-- Whether two stacks divide the text at the same places and agree on the standpoint at each. -/
def alike : Stack → Stack → Bool
  | [], [] => true
  | f :: s, g :: t =>
    f.reach.bytes == g.reach.bytes && f.cost == g.cost && symbolOf f == symbolOf g &&
      f.state.same g.state && alike s t
  | _, _ => false

end Stack

/-- What a reading is doing. A `paused` one could not take the lexeme it holds, which has `rest` after
it. -/
inductive Status where
  | active
  | paused (lexeme : Lexeme) (rest : List Char)
  | halted
  deriving Repr, Inhabited

/-- A standpoint of a reading before it lost its place, with how many pieces back it was. -/
structure Landmark where
  state : ItemSet
  depth : Nat
  reach : Extent
  deriving Repr, Inhabited

structure Reading where
  divisions : List Stack
  /-- The text still to come. -/
  rest : List Char
  status : Status := .active
  /-- The node count at the last repair. -/
  nodesAtRepair : Nat := 0
  landmarks : List Landmark := []
  deriving Repr, Inhabited

namespace Reading

def top (r : Reading) : Frame := Stack.top (r.divisions.headD [])

def state (r : Reading) : ItemSet := r.top.state

def reach (r : Reading) : Extent := r.top.reach

def isLost (r : Reading) : Bool := r.state.isLost

def isActive (r : Reading) : Bool :=
  match r.status with
  | .active => true
  | _ => false

def isPaused (r : Reading) : Bool :=
  match r.status with
  | .paused .. => true
  | _ => false

def isHalted (r : Reading) : Bool :=
  match r.status with
  | .halted => true
  | _ => false

def nodes (r : Reading) : Nat := r.divisions.foldl (fun n s => max n (Stack.top s).nodes) 0

def bias (r : Reading) : Int :=
  match r.divisions with
  | [] => 0
  | s :: ss => ss.foldl (fun b t => max b (Stack.top t).bias) (Stack.top s).bias

/-- The cost of the repairs of a reading; one that has just lost its place pays for that in
advance. -/
def cost (r : Reading) : Nat :=
  let f := r.top
  let losing := f.state.isLost && f.piece.isNone
  f.cost + if r.isPaused || losing then Cost.recovery else 0

def progress (r : Reading) : Nat := r.nodes - r.nodesAtRepair

def settle (r : Reading) : Reading := { r with nodesAtRepair := min r.nodesAtRepair r.nodes }

def pause (r : Reading) (lexeme : Lexeme) (rest : List Char) : Reading :=
  { r with status := .paused lexeme rest, nodesAtRepair := r.nodes }

def mergeable (a b : Reading) : Bool :=
  a.isActive && b.isActive && !a.divisions.isEmpty && a.reach.bytes == b.reach.bytes &&
    a.top.cost == b.top.cost && a.state.same b.state

/-- Adds a stack unless it is like one already there; of two alike the one with more bias stays. -/
def addStack (divisions : List Stack) (s : Stack) : List Stack :=
  match divisions with
  | [] => [s]
  | t :: ts =>
    if Stack.alike t s then
      (if (Stack.top t).bias < (Stack.top s).bias then s else t) :: ts
    else t :: addStack ts s

def maxStacks : Nat := 64

def merge (a b : Reading) : Reading :=
  let joined := { a with divisions := (b.divisions.foldl addStack a.divisions).take maxStacks }
  if a.isLost then { joined with nodesAtRepair := joined.nodes } else joined

def mapStacks (r : Reading) (f : Stack → Stack) : Reading := { r with divisions := r.divisions.map f }

def shift (r : Reading) (kind : Terminal) (lexeme : Lexeme) (extra : Bool) (state : ItemSet)
    (rest : List Char) : Reading :=
  let read := r.mapStacks fun s =>
    Stack.push s { extra := extra } (.token kind lexeme.gap lexeme.text) state
  { read with rest := rest }

def lexeme (r : Reading) : Lexeme × List Char :=
  Lexeme.next r.state.acceptable r.isLost (r.reach.bytes == 0) r.rest

end Reading

/-- The labels that a production gives its children, if their symbols are the production's. -/
def labelled : List Step → List (Label × Tree) → Option (List (Label × Tree))
  | [], [] => some []
  | steps, (label, t) :: rest =>
    if label.extra then (labelled steps rest).map ((label, t) :: ·)
    else match steps with
      | step :: steps =>
        if t.symbol? = some step.symbol then
          (labelled steps rest).map (({ role := step.role, shown := step.shown }, t) :: ·)
        else none
      | [] => none
  | _ :: _, [] => none

end EndpointAtlas.Syntax
