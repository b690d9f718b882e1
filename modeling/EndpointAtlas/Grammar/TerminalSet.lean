import EndpointAtlas.Grammar.Terminal

/-! Sets of terminals, one bit for each. -/

namespace EndpointAtlas.Grammar

structure TerminalSet where
  bits : Nat
  deriving DecidableEq, Repr, Inhabited

namespace TerminalSet

def empty : TerminalSet := ⟨0⟩

def singleton (t : Terminal) : TerminalSet := ⟨1 <<< t.index⟩

def union (a b : TerminalSet) : TerminalSet := ⟨a.bits ||| b.bits⟩

instance : Union TerminalSet := ⟨union⟩

def contains (s : TerminalSet) (t : Terminal) : Bool := s.bits.testBit t.index

def ofList (ts : List Terminal) : TerminalSet := ts.foldl (fun s t => s ∪ singleton t) empty

end TerminalSet

end EndpointAtlas.Grammar
