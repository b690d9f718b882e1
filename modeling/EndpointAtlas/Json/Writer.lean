import EndpointAtlas.Sorted.Map

/-!
JSON texts as reports are written: two spaces of indentation for each level, every item on a line of
its own, and short escapes where there are any.
-/

namespace EndpointAtlas.Json

def hexDigit (n : Nat) : Char := Nat.digitChar n

def escape (c : Char) : List Char :=
  if c == '"' || c == '\\' then ['\\', c]
  else if c == '\n' then ['\\', 'n']
  else if c == '\r' then ['\\', 'r']
  else if c == '\t' then ['\\', 't']
  else if c.toNat == 8 then ['\\', 'b']
  else if c.toNat == 12 then ['\\', 'f']
  else if c.toNat < 0x20 then
    ['\\', 'u', '0', '0', hexDigit (c.toNat / 16), hexDigit (c.toNat % 16)]
  else [c]

def writeString (s : String) : List Char := '"' :: s.toList.flatMap escape ++ ['"']

def writeCount (n : Nat) : List Char := (toString n).toList

/-- The start of a line at some depth. -/
def newLine (depth : Nat) : List Char := '\n' :: List.replicate (2 * depth) ' '

/-- Items between brackets at some depth. Without items the brackets stand together. -/
def writeBlock (opening closing : Char) (depth : Nat) (items : List (List Char)) : List Char :=
  match items with
  | [] => [opening, closing]
  | items =>
    opening :: List.intercalate [','] (items.map (newLine (depth + 1) ++ ·)) ++
      newLine depth ++ [closing]

def writeArray {α : Type} (write : Nat → α → List Char) (depth : Nat) (xs : List α) : List Char :=
  writeBlock '[' ']' depth (xs.map (write (depth + 1)))

def writeObject {α : Type} (write : Nat → α → List Char) (depth : Nat) (m : SortedMap String α) :
    List Char :=
  writeBlock '\x7b' '\x7d' depth
    (m.toList.map fun e => writeString e.1 ++ [':', ' '] ++ write (depth + 1) e.2)

end EndpointAtlas.Json
