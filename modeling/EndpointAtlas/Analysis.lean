import EndpointAtlas.Catalog
import EndpointAtlas.Inventory

/-!
The analysis of source files. All interfaces are catalogued first, so that a controller finds the
endpoints of an interface wherever that is declared; then the controllers are collected file by file.
-/

namespace EndpointAtlas

structure Analysis where
  inventory : Inventory
  statistics : Statistics
  deriving DecidableEq, Repr, Inhabited

namespace DeclaredType

/-- The endpoints that an interface passes on to the controllers that implement it. -/
def inheritedEndpoints (t : DeclaredType) : List Endpoint :=
  t.endpointMethods.map (·.inheritedEndpoint t.name)

/-- The endpoints a controller gets through one reference of its `implements` clause, and what there is
to report about it. -/
def referredEndpoints (catalog : Catalog) (controller : String) (r : TypeReference) :
    List Endpoint × List Event :=
  match catalog.resolve r with
  | some interface => (interface.inheritedEndpoints, [])
  | none => ([], [.interfaceNotFound controller r.qualifiedKey])

/-- The controller that a type is, with `lead` before its simple name: its own endpoints, then those of
each interface it implements. -/
def controller? (t : DeclaredType) (lead : String) (catalog : Catalog) :
    Option (Controller × List Event) :=
  if t.isController then
    let name := lead ++ t.name
    let referred := t.implemented.map (referredEndpoints catalog name)
    some (⟨name, t.endpointMethods.map (·.declaredEndpoint) ++ referred.flatMap (·.1)⟩,
      referred.flatMap (·.2))
  else none

end DeclaredType

def SourceUnit.controllers (u : SourceUnit) (catalog : Catalog) : List (Controller × List Event) :=
  u.types.filterMap fun t => t.controller? u.lead catalog

namespace Roster

def addUnit (catalog : Catalog) (state : Roster × List Event) (u : SourceUnit) :
    Roster × List Event :=
  let found := u.controllers catalog
  found.foldl (fun (r, events) (x, _) =>
      let (r, previous) := r.insert x
      (r, events ++ report previous))
    (state.1, state.2 ++ found.flatMap (·.2))

def ofUnits (catalog : Catalog) (us : List SourceUnit) : Roster × List Event :=
  us.foldl (addUnit catalog) (.empty, [])

end Roster

namespace Analysis

/-- What there is to report of ambiguous names. -/
def ambiguities (catalog : Catalog) : List Event :=
  catalog.ambiguous.toList.map fun e => .ambiguousInterface e.1 e.2.toList

def counts (parsed : Nat) (catalog : Catalog) (roster : Roster) (inventory : Inventory) :
    Statistics :=
  { filesParsed := parsed
    interfaces := catalog.count
    ambiguousInterfaces := catalog.ambiguous.size
    controllers := inventory.size
    endpoints := inventory.endpointCount
    controllerCollisions := roster.replaced }

/-- Analyses source files; gives the analysis and all there is to report. -/
def run (us : List SourceUnit) : Analysis × List Event :=
  let catalog := Catalog.ofUnits us
  let (roster, events) := Roster.ofUnits catalog us
  let inventory := roster.inventory
  let statistics := counts us.length catalog roster inventory
  (⟨inventory, statistics⟩,
    ambiguities catalog ++ events ++ roster.reports ++
      [.catalogued statistics.interfaces statistics.controllers statistics.endpoints])

def ofUnits (us : List SourceUnit) : Analysis := (run us).1

end Analysis

end EndpointAtlas
