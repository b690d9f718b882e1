/-!
Dotted names. A name is cut at its last dot: before it stands the qualifier, after it the simple name.
-/

namespace EndpointAtlas.Text

def splitLastDot : List Char → Option (List Char × List Char)
  | [] => none
  | c :: cs =>
    match splitLastDot cs with
    | some (before, after) => some (c :: before, after)
    | none => if c = '.' then some ([], cs) else none

def lastSegment (cs : List Char) : List Char :=
  match splitLastDot cs with
  | some (_, after) => after
  | none => cs

end EndpointAtlas.Text
