/-!
Places in a text: the line and the column, both counted from 1, a column in bytes of UTF-8.
-/

namespace EndpointAtlas.Syntax

structure Position where
  line : Nat
  column : Nat
  deriving DecidableEq, Repr, Inhabited

namespace Position

def start : Position := ⟨1, 1⟩

def next (p : Position) (c : Char) : Position :=
  if c == '\n' then ⟨p.line + 1, 1⟩ else ⟨p.line, p.column + c.utf8Size⟩

def after (p : Position) (cs : List Char) : Position := cs.foldl next p

end Position

end EndpointAtlas.Syntax
