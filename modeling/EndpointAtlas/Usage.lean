import EndpointAtlas.Inventory

/-!
How often each type is exchanged: a type counts once for every list of an inventory that names it, as
often as it is named there.
-/

namespace EndpointAtlas

structure Usage where
  counts : SortedMap String Nat
  deriving DecidableEq, Repr, Inhabited

structure MostUsed where
  count : Nat
  types : List String
  deriving DecidableEq, Repr, Inhabited

namespace Usage

def mention (u : Usage) (type : String) : Usage := ⟨u.counts.modify type 0 (· + 1)⟩

def ofInventory (i : Inventory) : Usage := i.typeLists.flatten.foldl mention ⟨.empty⟩

def get? (u : Usage) (type : String) : Option Nat := u.counts.get? type

def size (u : Usage) : Nat := u.counts.size

def isEmpty (u : Usage) : Bool := u.counts.isEmpty

def toList (u : Usage) : List (String × Nat) := u.counts.toList

def mostUsed (u : Usage) : Option MostUsed :=
  match u.counts.values.max? with
  | some count => some ⟨count, (u.toList.filter (·.2 == count)).map (·.1)⟩
  | none => none

/-- Whether `a` ranks no lower than `b`: by falling count, then by name. -/
def ranksBefore (a b : String × Nat) : Bool := b.2 < a.2 || (a.2 == b.2 && !decide (b.1 < a.1))

def top (u : Usage) (n : Nat) : List (String × Nat) := (u.toList.mergeSort ranksBefore).take n

/-- The lines that sum up the usage, with the first `n` types of the ranking. -/
def summaryLines (u : Usage) (n : Nat) : List String :=
  [s!"Number of unique DTOs: {u.size}", ""] ++
    (match u.mostUsed with
      | some most =>
        ["== Most used DTO: [" ++ ", ".intercalate most.types ++ s!"] (Used {most.count} times) =="]
      | none => ["== No DTOs found =="]) ++
    match u.top n with
    | [] => []
    | ranked => ["", "== Frequently used DTOs ==", ""] ++ ranked.map fun e => s!"{e.1} : {e.2}"

def summary (u : Usage) (n : Nat) : String := String.join ((u.summaryLines n).map (· ++ "\n"))

def toJson (u : Usage) : List Char := Json.writeObject (fun _ => Json.writeCount) 0 u.counts

def ofJson? (cs : List Char) : Option Usage :=
  (Json.readAll (Json.readObject Json.readCount) cs).map (⟨·⟩)

end Usage

end EndpointAtlas
