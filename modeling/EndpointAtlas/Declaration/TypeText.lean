import EndpointAtlas.Text.Whitespace

/-!
The printed form of a type expression: `Map<String ,  List<Long> >` is printed `Map<String, List<Long>>`.
White space counts only as far as it parts two words; a comma is always followed by one space.
-/

namespace EndpointAtlas.TypeText

open Text

/-- The marks that no space comes before. -/
def isMark (c : Char) : Bool := c == '<' || c == '>' || c == '[' || c == ']' || c == '.' || c == ','

/-- The marks that no space comes after. -/
def isOpening (c : Char) : Bool := c == '<' || c == '[' || c == '.'

/-- Whether a space is printed before `c`, where `last` is the character printed before it and `blank`
says that white space was read in between. -/
def spaced (last : Option Char) (blank : Bool) (c : Char) : Bool :=
  match last with
  | none => false
  | some l => l == ',' || (blank && !isMark c && !isOpening l)

/-- Prints what follows `last`. -/
def layout (last : Option Char) (blank : Bool) : List Char → List Char
  | [] => []
  | c :: cs =>
    if isWhitespace c then layout last true cs
    else if spaced last blank c then ' ' :: c :: layout (some c) false cs
    else c :: layout (some c) false cs

def print (cs : List Char) : List Char := layout none false cs

end EndpointAtlas.TypeText
