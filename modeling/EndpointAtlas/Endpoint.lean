import EndpointAtlas.Classification
import EndpointAtlas.Sorted.Set
import EndpointAtlas.Text.Quoted

/-!
Endpoints and controllers. An endpoint exchanges the types that its method returns and takes; for one
that a controller gets from an interface only the returned type counts.
-/

namespace EndpointAtlas

/-- Where an endpoint is declared: on the controller or on the named interface. -/
inductive Origin where
  | declared
  | inherited (interface : String)
  deriving DecidableEq, Repr, Inhabited

def Origin.describe : Origin → String
  | declared => "Declared"
  | inherited interface => "Interface(" ++ Text.quoted interface ++ ")"

structure Endpoint where
  name : String
  origin : Origin
  types : SortedSet
  deriving DecidableEq, Repr, Inhabited

namespace Method

def returned (m : Method) : List String := if m.returnsVoid then [] else [m.returnType]

def declaredEndpoint (m : Method) : Endpoint :=
  ⟨m.name, .declared, .ofList (m.returned ++ m.parameters.map (·.type))⟩

/-- The endpoint of a method that a controller gets from an interface. -/
def inheritedEndpoint (m : Method) (interface : String) : Endpoint :=
  ⟨m.name, .inherited interface, .ofList m.returned⟩

end Method

/-- A controller by its qualified name, with its endpoints in the order they were found. -/
structure Controller where
  qualifiedName : String
  endpoints : List Endpoint
  deriving DecidableEq, Repr, Inhabited

end EndpointAtlas
