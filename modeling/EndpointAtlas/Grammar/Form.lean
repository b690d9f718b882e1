import EndpointAtlas.Grammar.Terminal
import EndpointAtlas.Grammar.Construct

/-!
How a construct is written. A `Form` lists its parts in order; a part may be optional and may be any
one of several symbols. `Form.productions` spells out the choices: a `Production` is a plain sequence
of symbols.
-/

namespace EndpointAtlas.Grammar

inductive Symbol where
  | terminal (t : Terminal)
  | construct (c : Construct)
  deriving DecidableEq, Repr, Inhabited

/-- The role of a part in its construct, as far as declarations are read by role. -/
inductive Role where
  | name | type | dimensions | parameters | interfaces | body
  deriving DecidableEq, Repr, Inhabited

/-- What a node of the syntax tree is shown as. -/
inductive Kind where
  | terminal (t : Terminal)
  | construct (c : Construct)
  | typeIdentifier
  | error
  deriving DecidableEq, Repr, Inhabited

/-- A symbol at one place of a production, with the role its node plays there and the kind it is
shown as when that is not its own. -/
structure Step where
  symbol : Symbol
  role : Option Role := none
  shown : Option Kind := none
  deriving DecidableEq, Repr, Inhabited

/-- Which of two equally binding readings is kept: the one that groups to the left or to the right. -/
inductive Side where
  | left | right
  deriving DecidableEq, Repr, Inhabited

/-- One part of a form: any of the listed symbols, possibly none. -/
structure Part where
  choices : List Step
  required : Bool := true

/-- One way to write a construct. `level` and `side` settle which reading is kept when a text can be
grouped in two ways; `bias` weighs readings that are told apart only later in the text. -/
structure Form where
  parts : List Part
  level : Int := 0
  side : Option Side := none
  bias : Int := 0

/-- A sequence of symbols that makes up a construct. `number` tells productions apart. -/
structure Production where
  number : Nat
  head : Construct
  steps : List Step
  level : Int
  side : Option Side
  bias : Int
  deriving DecidableEq, Repr, Inhabited

namespace Part

def tok (t : Terminal) : Part := ⟨[⟨.terminal t, none, none⟩], true⟩

def sub (c : Construct) : Part := ⟨[⟨.construct c, none, none⟩], true⟩

def typeName : Part := ⟨[⟨.terminal .identifier, none, some .typeIdentifier⟩], true⟩

def anyOf (ps : List Part) : Part := ⟨ps.flatMap (·.choices), true⟩

def opt (p : Part) : Part := { p with required := false }

def as (p : Part) (r : Role) : Part :=
  { p with choices := p.choices.map fun s => { s with role := some r } }

def shownAs (p : Part) (k : Kind) : Part :=
  { p with choices := p.choices.map fun s => { s with shown := some k } }

def spellings (p : Part) : List (List Step) :=
  let chosen := p.choices.map ([·])
  if p.required then chosen else [] :: chosen

end Part

namespace Form

def seq (ps : List Part) : Form := { parts := ps }

def leveled (n : Int) (ps : List Part) : Form := { parts := ps, level := n }

def grouped (n : Int) (s : Side) (ps : List Part) : Form := { parts := ps, level := n, side := some s }

def biased (n : Int) (ps : List Part) : Form := { parts := ps, bias := n }

/-- Every sequence of steps that a list of parts can stand for. -/
def sequences : List Part → List (List Step)
  | [] => [[]]
  | p :: ps => p.spellings.flatMap fun here => (sequences ps).map (here ++ ·)

end Form

/-- The forms of a list construct: one repetition, or a shorter list and one more. -/
def repeated (self : Construct) (content : List Part) : List Form :=
  [.seq content, .seq (.sub self :: content)]

end EndpointAtlas.Grammar
