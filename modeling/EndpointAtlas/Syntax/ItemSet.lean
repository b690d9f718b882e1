import EndpointAtlas.Grammar.Corner

/-!
Where a reading stands: the productions it may be in, each with the steps still to come and the
terminals that may follow. `ItemSet.advance` moves over a symbol, and `ItemSet.moves` says what can be
done before a terminal: complete productions, or go on past it.
-/

namespace EndpointAtlas.Syntax

open Grammar

structure Item where
  production : Production
  rest : List Step
  follow : TerminalSet
  deriving DecidableEq, Repr, Inhabited

/-- A set of items, ordered by production and place in it. The empty set is the standpoint of a
reading that has lost its place. -/
structure ItemSet where
  items : List Item
  deriving DecidableEq, Repr, Inhabited

namespace Item

def isComplete (i : Item) : Bool := i.rest.isEmpty

/-- Items of one production at one place, whatever may follow. -/
def samePlace (i j : Item) : Bool :=
  i.production.number == j.production.number && i.rest.length == j.rest.length

def before (i j : Item) : Bool :=
  i.production.number < j.production.number ||
    (i.production.number == j.production.number && i.rest.length < j.rest.length)

/-- The terminals that can come next in an item that is not complete. -/
def next (i : Item) : TerminalSet :=
  match i.rest with
  | [] => .empty
  | step :: _ => first step.symbol

def isBegun (i : Item) : Bool := i.rest.length < i.production.steps.length

end Item

namespace ItemSet

def lost : ItemSet := ⟨[]⟩

def isLost (s : ItemSet) : Bool := s.items.isEmpty

def insertItem (i : Item) : List Item → List Item
  | [] => [i]
  | j :: js =>
    if i.samePlace j then { j with follow := j.follow ∪ i.follow } :: js
    else if i.before j then i :: j :: js
    else j :: insertItem i js

private def sameItems : List Item → List Item → Bool
  | [], [] => true
  | i :: is, j :: js => i.samePlace j && i.follow.bits == j.follow.bits && sameItems is js
  | _, _ => false

def same (s t : ItemSet) : Bool := sameItems s.items t.items

def start : ItemSet :=
  let follow := TerminalSet.singleton .endOfInput
  ⟨(productionsOf .goal ++ (productionsOf .program).filter (·.steps.isEmpty)).map
    fun p => ⟨p, p.steps, follow⟩⟩

/-- The constructs that can come next, each with what may follow it. -/
def expected : List Item → List (Construct × TerminalSet)
  | [] => []
  | i :: is =>
    match i.rest with
    | ⟨.construct c, _, _⟩ :: later =>
      let follow := match later with
        | [] => i.follow
        | step :: _ => first step.symbol
      merge c follow (expected is)
    | _ => expected is
where
  merge (c : Construct) (follow : TerminalSet) :
      List (Construct × TerminalSet) → List (Construct × TerminalSet)
    | [] => [(c, follow)]
    | (d, f) :: rest => if c = d then (d, f ∪ follow) :: rest else (d, f) :: merge c follow rest

def advance (s : ItemSet) (x : Symbol) : ItemSet :=
  let moved := s.items.foldl (fun acc i =>
    match i.rest with
    | step :: later => if step.symbol = x then insertItem { i with rest := later } acc else acc
    | [] => acc) []
  let opened := (expected s.items).foldl (fun acc (a, follow) =>
    (startingWith x).foldl (fun acc p =>
      if isCorner a p.head then
        let after := trailing a p.head
        insertItem ⟨p, p.steps.tail, if isUnit a p.head then after ∪ follow else after⟩ acc
      else acc) acc) moved
  ⟨opened⟩

def acceptable (s : ItemSet) : TerminalSet :=
  s.items.foldl (fun acc i => acc ∪ if i.isComplete then i.follow else i.next) .empty

/-- What can be done before a terminal: productions to complete, and whether to go on past it. -/
structure Moves where
  reductions : List Production
  shifts : Bool
  deriving Inhabited

structure Pending where
  reductions : List Production := []
  level : Int := 0
  left : Bool := false
  right : Bool := false
  neither : Bool := false

def Pending.add (acc : Pending) (p : Production) : Pending :=
  let start : Pending := if acc.reductions.isEmpty || acc.level < p.level then {} else acc
  if !acc.reductions.isEmpty && p.level < acc.level then acc
  else
    { reductions := start.reductions ++ [p]
      level := p.level
      left := start.left || p.side = some .left
      right := start.right || p.side = some .right
      neither := start.neither || p.side = none }

/-- Shorter productions are completed first, those of one length in the order of their
constructs. -/
def insertByLength (p : Production) : List Production → List Production
  | [] => [p]
  | q :: qs =>
    if p.steps.length < q.steps.length ||
        (p.steps.length == q.steps.length && p.head.index < q.head.index) then p :: q :: qs
    else q :: insertByLength p qs

/-- The moves before a terminal. Of several completed productions the most binding ones stay. Against
going on, the more binding side wins; between equals, grouping to the left completes and grouping to
the right goes on; what is left undecided is tried both ways. -/
def moves (s : ItemSet) (t : Terminal) : Moves :=
  let done := s.items.filter fun i => i.isComplete && i.follow.contains t
  let pending := (done.foldl (fun acc i => insertByLength i.production acc) []).foldl
    Pending.add {}
  let going := s.items.filter fun i => i.next.contains t
  if going.isEmpty then ⟨pending.reductions, false⟩
  else if pending.reductions.isEmpty then ⟨[], true⟩
  else
    let begun := going.filter (·.isBegun)
    let more := begun.any fun i => pending.level < i.production.level
    let less := begun.any fun i => i.production.level < pending.level
    if more && !less then ⟨[], true⟩
    else if less && !more then ⟨pending.reductions, false⟩
    else if !more && pending.left && !pending.neither && !pending.right then
      ⟨pending.reductions, false⟩
    else if !more && pending.right && !pending.neither && !pending.left then ⟨[], true⟩
    else ⟨pending.reductions, true⟩

end ItemSet

end EndpointAtlas.Syntax
