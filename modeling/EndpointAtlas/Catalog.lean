import EndpointAtlas.Sorted.Set
import EndpointAtlas.Declaration.Basic

/-!
The catalog of interfaces. An interface is entered under its simple and its qualified name; a later
entry under the same name takes the place of an earlier one.
-/

namespace EndpointAtlas

/-- The interfaces by name, the qualified names known for each simple name, and the number of
interfaces entered. -/
structure Catalog where
  entries : SortedMap String DeclaredType
  qualifiedNames : SortedMap String SortedSet
  count : Nat
  deriving Repr, Inhabited

namespace Catalog

def empty : Catalog := ⟨.empty, .empty, 0⟩

def isEmpty (c : Catalog) : Bool := c.entries.isEmpty

/-- Enters a type that is named with `lead` before its simple name, and says whether it did: only
interfaces are entered. -/
def enter (c : Catalog) (t : DeclaredType) (lead : String) : Catalog × Bool :=
  if t.isInterface then
    let qualified := lead ++ t.name
    ({ entries := (c.entries.insert t.name t).insert qualified t
       qualifiedNames := c.qualifiedNames.modify t.name .empty (·.insert qualified)
       count := c.count + 1 }, true)
  else (c, false)

def register (c : Catalog) (t : DeclaredType) (lead : String) : Catalog := (c.enter t lead).1

def enterNext (lead : String) (state : Catalog × Nat) (t : DeclaredType) : Catalog × Nat :=
  let (c, entered) := state.1.enter t lead
  (c, if entered then state.2 + 1 else state.2)

/-- Enters the types of a source file, and counts those that it entered. -/
def enterUnit (c : Catalog) (u : SourceUnit) : Catalog × Nat :=
  u.types.foldl (enterNext u.lead) (c, 0)

def registerUnit (c : Catalog) (u : SourceUnit) : Catalog := (c.enterUnit u).1

def ofUnits (us : List SourceUnit) : Catalog := us.foldl registerUnit empty

/-- The interface that a reference means: the one entered under its qualified name, else under its
simple name. -/
def resolve (c : Catalog) (r : TypeReference) : Option DeclaredType :=
  (c.entries.get? r.qualifiedKey).orElse fun _ => c.entries.get? r.name

/-- The simple names that stand for several qualified ones. -/
def ambiguous (c : Catalog) : SortedMap String SortedSet :=
  c.qualifiedNames.filter fun _ names => 1 < names.size

end Catalog

end EndpointAtlas
