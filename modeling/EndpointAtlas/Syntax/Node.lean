import EndpointAtlas.Syntax.Position
import EndpointAtlas.Syntax.Tree

/-!
A syntax tree as its reader sees it: hidden constructs are gone, their parts standing in their place,
and each node has the kind it is shown as and its role in the node around it. `Node.source` gives back
the text.
-/

namespace EndpointAtlas.Syntax

open Grammar

inductive Node where
  /-- A token, with the blanks before it. One that was put in by a repair has no text. -/
  | leaf (kind : Kind) (role : Option Role) (gap text : List Char) (missing : Bool)
  /-- A construct or a skipped stretch. `broken` tells whether there is any repair in it. -/
  | branch (kind : Kind) (role : Option Role) (broken : Bool) (children : List Node)
  deriving Repr, Inhabited

namespace Node

def kind : Node → Kind
  | leaf k _ _ _ _ | branch k _ _ _ => k

def role : Node → Option Role
  | leaf _ r _ _ _ | branch _ r _ _ => r

def children : Node → List Node
  | leaf .. => []
  | branch _ _ _ ns => ns

def isFlaw : Node → Bool
  | leaf k _ _ _ missing => missing || k == .error
  | branch k _ _ _ => k == .error

/-- Whether the node is said to be a repair or to hold one. -/
def isBroken : Node → Bool
  | leaf k _ _ _ missing => missing || k == .error
  | branch _ _ broken _ => broken

def isComment (n : Node) : Bool :=
  n.kind == .terminal .lineComment || n.kind == .terminal .blockComment

/-- Whether the node counts as a part of its own, unlike marks and keywords. -/
def isNamed (n : Node) : Bool :=
  match n.kind with
  | .terminal t =>
    match t with
    | .identifier | .decimalInteger | .hexInteger | .octalInteger | .binaryInteger | .decimalFloat
    | .hexFloat | .trueWord | .falseWord | .characterLiteral | .stringFragment | .escapeSequence
    | .nullWord | .underscore | .booleanWord | .voidWord | .thisWord | .superWord | .lineComment
    | .blockComment => true
    | _ => false
  | .construct _ | .typeIdentifier | .error => true

mutual

def decEq : (n m : Node) → Decidable (n = m)
  | leaf k r gap text missing, leaf k' r' gap' text' missing' =>
    decidable_of_iff (k = k' ∧ r = r' ∧ gap = gap' ∧ text = text' ∧ missing = missing')
      (by rw [leaf.injEq])
  | branch k r broken ns, branch k' r' broken' ms =>
    match decEqOf ns ms with
    | isTrue h => decidable_of_iff (k = k' ∧ r = r' ∧ broken = broken') (by simp [h])
    | isFalse h => isFalse fun heq => h (branch.inj heq).2.2.2
  | leaf .., branch .. => isFalse nofun
  | branch .., leaf .. => isFalse nofun

def decEqOf : (ns ms : List Node) → Decidable (ns = ms)
  | [], [] => isTrue rfl
  | n :: ns, m :: ms =>
    match decEq n m, decEqOf ns ms with
    | isTrue h, isTrue hs => isTrue (by rw [h, hs])
    | isFalse h, _ => isFalse fun heq => h (List.cons.inj heq).1
    | _, isFalse hs => isFalse fun heq => hs (List.cons.inj heq).2
  | [], _ :: _ => isFalse nofun
  | _ :: _, [] => isFalse nofun

end

instance : DecidableEq Node := decEq

/-! ### The text of a node -/

mutual

/-- All characters of a node, the blanks before it included. -/
def source : Node → List Char
  | leaf _ _ gap text _ => gap ++ text
  | branch _ _ _ ns => sourceOf ns

def sourceOf : List Node → List Char
  | [] => []
  | n :: ns => n.source ++ sourceOf ns

end

mutual

def gap : Node → List Char
  | leaf _ _ gap _ _ => gap
  | branch _ _ _ ns => gapOf ns

def gapOf : List Node → List Char
  | [] => []
  | n :: _ => n.gap

end

def text (n : Node) : List Char := n.source.drop n.gap.length

/-! ### Search for repairs -/

mutual

/-- Where the first repair of a node stands that starts, with its blanks, at `p`. Nodes that hold none
are passed over. -/
def firstFlaw (p : Position) : Node → Option Position
  | leaf k _ gap _ missing => if missing || k == .error then some (p.after gap) else none
  | branch k _ broken ns =>
    if k == .error then some (p.after (gapOf ns))
    else if broken then firstFlawOf p ns
    else none

def firstFlawOf (p : Position) : List Node → Option Position
  | [] => none
  | n :: ns => (n.firstFlaw p).orElse fun _ => firstFlawOf (p.after n.source) ns

end

/-! ### Nodes of a tree -/

/-- Gives a role to a node that is no comment and has none yet. -/
def giveRole (r : Option Role) (n : Node) : Node :=
  match n with
  | leaf k none gap text missing => if n.isComment then n else leaf k r gap text missing
  | branch k none broken ns => branch k r broken ns
  | _ => n

mutual

/-- The nodes that a tree shows as, standing in its surroundings as `label` says. -/
def ofTree (label : Label) : Tree → List Node
  | .token t gap text => [leaf (label.shown.getD (.terminal t)) label.role gap text false]
  | .missing t => [leaf (label.shown.getD (.terminal t)) label.role [] [] true]
  | .stray gap text => [leaf .error label.role gap text false]
  | .node c summary children =>
    if c.hidden then (ofTrees children).map (giveRole label.role)
    else [branch (.construct c) label.role summary.repaired (ofTrees children)]
  | .skipped isOpen summary children =>
    if isOpen then (ofTrees children).map (giveRole label.role)
    else [branch .error label.role summary.repaired (ofTrees children)]

def ofTrees : List (Label × Tree) → List Node
  | [] => []
  | child :: rest => ofChild child ++ ofTrees rest

def ofChild : Label × Tree → List Node
  | (label, t) => ofTree label t

end

def ofRoot (t : Tree) : Node :=
  match ofTree {} t with
  | [n] => n
  | ns => branch .error none t.hasRepair ns

end Node

end EndpointAtlas.Syntax
