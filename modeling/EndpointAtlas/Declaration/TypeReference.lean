import EndpointAtlas.Text.Dotted
import EndpointAtlas.Text.Whitespace

/-!
References to a type by name. `a.b.Api<T>` refers to the type `Api` with the qualifier `a.b`.
-/

namespace EndpointAtlas

open Text

structure TypeReference where
  qualifier : Option String
  name : String
  deriving DecidableEq, Repr, Inhabited

namespace TypeReference

/-- A written reference without white space and without what stands between `<` and `>`; a `>` that
closes nothing is dropped too. `depth` counts the open brackets. -/
def erase (depth : Nat) : List Char → List Char
  | [] => []
  | c :: cs =>
    if c == '<' then erase (depth + 1) cs
    else if c == '>' then erase (depth - 1) cs
    else if isWhitespace c || depth != 0 then erase depth cs
    else c :: erase depth cs

/-- Reads a reference; there is none when the name would be empty. -/
def parse (text : String) : Option TypeReference :=
  match trimEnds (· == '.') (erase 0 text.toList) with
  | [] => none
  | dotted =>
    match splitLastDot dotted with
    | some (qualifier, name) => some ⟨some (.ofList qualifier), .ofList name⟩
    | none => some ⟨none, .ofList dotted⟩

/-- The qualifier and the name with a dot between them. -/
def qualifiedKey (r : TypeReference) : String :=
  match r.qualifier with
  | some q => if q.isEmpty then r.name else q ++ "." ++ r.name
  | none => r.name

end TypeReference

end EndpointAtlas
