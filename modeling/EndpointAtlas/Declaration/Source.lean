import EndpointAtlas.Declaration.Lowering
import EndpointAtlas.Syntax.Parser
import EndpointAtlas.Text.Utf8

/-!
Reading source text. A text that the grammar derives gives its declarations. Any other text is refused
at the place of its first repair, unless the reader is lenient: then what the repaired tree declares is
kept.
-/

namespace EndpointAtlas

open Syntax

/-- A source text that the grammar does not derive; `position` is where the first repair stands. -/
structure SyntaxError where
  position : Position
  deriving DecidableEq, Repr, Inhabited

namespace SyntaxError

def message (e : SyntaxError) : String :=
  s!"syntax error at line {e.position.line}, column {e.position.column}"

end SyntaxError

namespace SourceUnit

def ofRoot (lenient : Bool) (root : Node) : Except SyntaxError SourceUnit :=
  if root.isBroken && !lenient then
    .error ⟨(root.firstFlaw .start).getD .start⟩
  else .ok (.ofNode root)

def ofText (lenient : Bool) (text : List Char) : Except SyntaxError SourceUnit :=
  ofRoot lenient (.ofRoot (Syntax.parse text))

/-- Reads the bytes of a source file; what is no text in them counts as replacement characters. -/
def ofBytes (lenient : Bool) (bytes : List UInt8) : Except SyntaxError SourceUnit :=
  ofText lenient (Text.Utf8.decodeLossy bytes)

end SourceUnit

end EndpointAtlas
