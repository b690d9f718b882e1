import EndpointAtlas.Sorted.Map

/-!
Sets of texts that list their elements in ascending order, each once.
-/

namespace EndpointAtlas

/-- A set of texts, held as a map without values. -/
structure SortedSet where
  elements : SortedMap String Unit
  deriving DecidableEq, Repr, Inhabited

namespace SortedSet

def empty : SortedSet := ⟨.empty⟩

def insert (s : SortedSet) (x : String) : SortedSet := ⟨s.elements.insert x ()⟩

def ofList (xs : List String) : SortedSet := xs.foldl insert empty

def toList (s : SortedSet) : List String := s.elements.keys

def size (s : SortedSet) : Nat := s.elements.size

def isEmpty (s : SortedSet) : Bool := s.elements.isEmpty

end SortedSet

end EndpointAtlas
