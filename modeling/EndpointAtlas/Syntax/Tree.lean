import EndpointAtlas.Grammar.Form

/-!
Syntax trees. A tree keeps every character of the text it was read from: tokens hold their own
characters and the blanks before them, and what a repair left out stays in the tree as `skipped`.
Each node carries a summary of its size and of the repairs in it.
-/

namespace EndpointAtlas.Syntax

open Grammar

/-- A stretch of text: its length in bytes of UTF-8 and the line breaks in it. -/
structure Extent where
  bytes : Nat
  lines : Nat
  deriving DecidableEq, Repr, Inhabited

namespace Extent

def zero : Extent := ⟨0, 0⟩

def add (a b : Extent) : Extent := ⟨a.bytes + b.bytes, a.lines + b.lines⟩

instance : Add Extent := ⟨add⟩

def ofChars (cs : List Char) : Extent :=
  cs.foldl (fun e c => ⟨e.bytes + c.utf8Size, if c == '\n' then e.lines + 1 else e.lines⟩) zero

end Extent

/-- What is known of a tree as a whole: the blanks before it and its own stretch, how many nodes show
in it at the top and in all, the cost of its repairs, its bias, and whether there is any repair. -/
structure Summary where
  gap : Extent
  own : Extent
  children : Nat
  nodes : Nat
  cost : Nat
  bias : Int
  repaired : Bool
  deriving DecidableEq, Repr, Inhabited

/-- How a child stands in its node: its role there, the kind it is shown as, and whether it is an
`extra`, which no production has a place for. -/
structure Label where
  role : Option Role := none
  shown : Option Kind := none
  extra : Bool := false
  deriving DecidableEq, Repr, Inhabited

inductive Tree where
  | token (kind : Terminal) (gap text : List Char)
  /-- A token that a repair put in. -/
  | missing (kind : Terminal)
  /-- Characters that spell no terminal. -/
  | stray (gap text : List Char)
  | node (kind : Construct) (summary : Summary) (children : List (Label × Tree))
  /-- What a repair left out; still `open` as long as more may be added to it. -/
  | skipped (isOpen : Bool) (summary : Summary) (children : List (Label × Tree))
  deriving Repr, Inhabited

namespace Cost

def recovery : Nat := 500
def missing : Nat := 110
def skippedTree : Nat := 100
def skippedByte : Nat := 1
def skippedLine : Nat := 30

end Cost

namespace Tree

def summary : Tree → Summary
  | token _ gap text => ⟨.ofChars gap, .ofChars text, 0, 0, 0, 0, false⟩
  | missing _ => ⟨.zero, .zero, 0, 0, Cost.missing + Cost.recovery, 0, true⟩
  | stray gap text => ⟨.ofChars gap, .ofChars text, 0, 0, 0, 0, true⟩
  | node _ s _ => s
  | skipped _ s _ => s

/-- The grammar symbol a tree stands for; what was skipped stands for none. -/
def symbol? : Tree → Option Symbol
  | token t _ _ | missing t => some (.terminal t)
  | node c _ _ => some (.construct c)
  | stray .. | skipped .. => none

def isShown : Tree → Bool
  | node c _ _ => !c.hidden
  | skipped isOpen _ _ => !isOpen
  | token .. | missing .. | stray .. => true

def isError : Tree → Bool
  | skipped isOpen _ _ => !isOpen
  | stray .. => true
  | _ => false

def hasRepair (t : Tree) : Bool := t.summary.repaired

def isOpenSkipped : Tree → Bool
  | skipped true _ _ => true
  | _ => false

def childCount : Tree → Nat
  | node _ _ cs | skipped _ _ cs => cs.length
  | _ => 0

/-- Sums up children; `skipping` adds the cost of having skipped them. -/
def summarize (skipping : Bool) (bias : Int) (children : List (Label × Tree)) : Summary :=
  let sums := children.foldl (fun (acc : Summary × Bool) (label, t) =>
    let (acc, isFirst) := acc
    let s := t.summary
    let shown := t.isShown || label.shown.isSome
    let inner :=
      if skipping && !label.extra && !(t.isError && t.childCount == 0) then
        if shown then Cost.skippedTree else Cost.skippedTree * s.children
      else 0
    let acc :=
      { gap := if isFirst then s.gap else acc.gap
        own := if isFirst then s.own else acc.own + (s.gap + s.own)
        children := acc.children + if shown then 1 else s.children
        nodes := acc.nodes + s.nodes + if shown then 1 else 0
        cost := acc.cost + inner + if t.isOpenSkipped then 0 else s.cost
        bias := acc.bias + s.bias
        repaired := acc.repaired || s.repaired }
    (acc, false))
    (⟨.zero, .zero, 0, 0, 0, bias, skipping⟩, true)
  let s := sums.1
  if skipping then
    { s with cost := s.cost + Cost.recovery + Cost.skippedByte * s.own.bytes +
        Cost.skippedLine * s.own.lines }
  else s

def ofChildren (kind : Construct) (bias : Int) (children : List (Label × Tree)) : Tree :=
  node kind (summarize false bias children) children

def skip (isOpen : Bool) (children : List (Label × Tree)) : Tree :=
  skipped isOpen (summarize true 0 children) children

/-- What a tree adds to the count of nodes read: the nodes that show, and stretches still being
skipped. -/
def weight (t : Tree) : Nat :=
  t.summary.nodes + (if t.isShown then 1 else 0) + if t.isOpenSkipped then 1 else 0

end Tree

end EndpointAtlas.Syntax
