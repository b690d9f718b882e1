import EndpointAtlas.Event
import EndpointAtlas.Json.Reader
import EndpointAtlas.Json.Writer

/-!
The inventory: for each controller its endpoints, and for each endpoint the types it exchanges. It is
built from the controllers found in a run; of several with one name the last one counts, and so it is
with the endpoints of a controller.
-/

namespace EndpointAtlas

/-- The types exchanged by the endpoints of one controller, by the name of the endpoint. -/
abbrev EndpointMap := SortedMap String (List String)

namespace Controller

/-- The endpoints by name, and what there is to report of names that come more than once. -/
def flatten (c : Controller) : EndpointMap × List Event :=
  c.endpoints.foldl (fun (map, events) e =>
    (map.insert e.name e.types.toList,
      if map.contains e.name then
        events ++ [.endpointRepeated c.qualifiedName e.name e.origin]
      else events)) (.empty, [])

def endpointMap (c : Controller) : EndpointMap := c.flatten.1

end Controller

structure Inventory where
  controllers : SortedMap String EndpointMap
  deriving DecidableEq, Repr, Inhabited

namespace Inventory

def empty : Inventory := ⟨.empty⟩

def ofList (entries : List (String × EndpointMap)) : Inventory := ⟨.ofList entries⟩

def get? (i : Inventory) (controller : String) : Option EndpointMap := i.controllers.get? controller

def size (i : Inventory) : Nat := i.controllers.size

def isEmpty (i : Inventory) : Bool := i.controllers.isEmpty

def endpointCount (i : Inventory) : Nat :=
  (i.controllers.values.map (·.size)).foldr (· + ·) 0

def typeLists (i : Inventory) : List (List String) := i.controllers.values.flatMap (·.values)

def toJson (i : Inventory) : List Char :=
  Json.writeObject (Json.writeObject (Json.writeArray fun _ => Json.writeString)) 0 i.controllers

def ofJson? (cs : List Char) : Option Inventory :=
  (Json.readAll (Json.readObject (Json.readObject (Json.readArray Json.readString))) cs).map (⟨·⟩)

end Inventory

/-- The controllers met so far in a run, and how many of them have taken the place of another. -/
structure Roster where
  controllers : SortedMap String Controller
  replaced : Nat
  deriving DecidableEq, Repr, Inhabited

namespace Roster

def empty : Roster := ⟨.empty, 0⟩

def size (r : Roster) : Nat := r.controllers.size

def isEmpty (r : Roster) : Bool := r.controllers.isEmpty

/-- Adds a controller; gives the one whose place it takes. -/
def insert (r : Roster) (x : Controller) : Roster × Option Controller :=
  let previous := r.controllers.get? x.qualifiedName
  (⟨r.controllers.insert x.qualifiedName x,
    if previous.isSome then r.replaced + 1 else r.replaced⟩, previous)

/-- What there is to report of a controller that takes the place of `previous`. -/
def report (previous : Option Controller) : List Event :=
  (previous.map fun x => Event.controllerReplaced x.qualifiedName).toList

def inventory (r : Roster) : Inventory := ⟨r.controllers.mapValues (·.endpointMap)⟩

/-- What there is to report of the endpoints of the controllers collected. -/
def reports (r : Roster) : List Event := r.controllers.values.flatMap (·.flatten.2)

end Roster

end EndpointAtlas
