import EndpointAtlas.Grammar.Java
import EndpointAtlas.Grammar.TerminalSet

/-!
What a construct can begin with. `corners a` holds the constructs that can stand first in an `a`,
`a` included; `units a` those that can make up all of it. `first` gives the terminals that can open a
symbol, and `trailing a b` those that can come right after a `b` that stands first in an `a`, as long
as the `a` goes on.
-/

namespace EndpointAtlas.Grammar

def spell (c : Construct) : List Production :=
  let sequences := (forms c).flatMap fun f => (Form.sequences f.parts).map fun steps => (f, steps)
  sequences.zipIdx.map fun ((f, steps), i) =>
    ⟨c.index * 128 + i, c, steps, f.level, f.side, f.bias⟩

def productionTable : Array (List Production) := (Construct.all.map spell).toArray

def productionsOf (c : Construct) : List Production := productionTable.getD c.index []

def productions : List Production := Construct.all.flatMap productionsOf

/-- A relation between constructs, one bit for each pair, in rows. -/
private structure Relation where
  bits : Nat

namespace Relation

private def width : Nat := Construct.all.length

private def place (a b : Construct) : Nat := a.index * width + b.index

private def holds (r : Relation) (a b : Construct) : Bool := r.bits.testBit (place a b)

/-- The first bit of every row. -/
private def firstColumn : Nat :=
  (List.range width).foldl (fun bits i => bits ||| (1 <<< (i * width))) 0

/-- Adds what is reachable by going through `b`: every row that has `b` gets the row of `b`. -/
private def through (r : Relation) (b : Construct) : Relation :=
  let onward := (r.bits >>> (b.index * width)) % (1 <<< width)
  let column := (r.bits >>> b.index) &&& firstColumn
  ⟨r.bits ||| (column * onward)⟩

private def closure (r : Relation) : Relation := Construct.all.foldl through r

private def ofProductions (reached : Production → Option Construct) : Relation :=
  ⟨Construct.all.foldl (fun bits a => (productionsOf a).foldl
    (fun bits p => match reached p with
      | some b => bits ||| (1 <<< place a b)
      | none => bits) (bits ||| (1 <<< place a a))) 0⟩

end Relation

private def cornerRelation : Relation :=
  (Relation.ofProductions fun p => match p.steps with
    | ⟨.construct b, _, _⟩ :: _ => some b
    | _ => none).closure

private def unitRelation : Relation :=
  (Relation.ofProductions fun p => match p.steps with
    | [⟨.construct b, _, _⟩] => some b
    | _ => none).closure

/-- Whether a `b` can stand first in an `a`. -/
def isCorner (a b : Construct) : Bool := cornerRelation.holds a b

/-- Whether a `b` can make up a whole `a`. -/
def isUnit (a b : Construct) : Bool := unitRelation.holds a b

private def openingTable : Array TerminalSet :=
  (Construct.all.map fun c => TerminalSet.ofList <| (productionsOf c).filterMap fun p =>
    match p.steps with
    | ⟨.terminal t, _, _⟩ :: _ => some t
    | _ => none).toArray

private def firstTable : Array TerminalSet :=
  (Construct.all.map fun a => Construct.all.foldl
    (fun s b => if isCorner a b then s ∪ openingTable.getD b.index .empty else s)
    TerminalSet.empty).toArray

def first : Symbol → TerminalSet
  | .terminal t => .singleton t
  | .construct c => firstTable.getD c.index .empty

/-- The places where `d` stands first without being all of a construct: that construct and what can
come next. -/
private def beginningsTable : Array (List (Construct × TerminalSet)) :=
  (Construct.all.map fun d => productions.filterMap fun p =>
    match p.steps with
    | ⟨.construct c, _, _⟩ :: next :: _ => if c = d then some (p.head, first next.symbol) else none
    | _ => none).toArray

private def trailingTerminals (a b : Construct) : TerminalSet :=
  Construct.all.foldl (fun s d =>
    if isUnit d b then
      (beginningsTable.getD d.index []).foldl
        (fun s (c, next) => if isCorner a c then s ∪ next else s) s
    else s) .empty

private def trailingTable : Array (Array TerminalSet) :=
  (Construct.all.map fun a => (Construct.all.map (trailingTerminals a)).toArray).toArray

/-- The terminals that can come right after a `b` that stands first in an `a` which goes on. -/
def trailing (a b : Construct) : TerminalSet :=
  (trailingTable.getD a.index #[]).getD b.index .empty

def startingTable (symbols : List Symbol) : Array (List Production) :=
  (symbols.map fun x => productions.filter fun p =>
    match p.steps with
    | step :: _ => step.symbol = x
    | [] => false).toArray

def terminalStarts : Array (List Production) :=
  startingTable (Terminal.all.map Symbol.terminal)

def constructStarts : Array (List Production) :=
  startingTable (Construct.all.map Symbol.construct)

def startingWith : Symbol → List Production
  | .terminal t => terminalStarts.getD t.index []
  | .construct c => constructStarts.getD c.index []

end EndpointAtlas.Grammar
