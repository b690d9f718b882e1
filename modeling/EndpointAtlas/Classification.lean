import EndpointAtlas.Marker

/-!
Which methods are endpoints and which types are controllers.
-/

namespace EndpointAtlas

/-- A method is an endpoint when one of its annotations marks it as one. -/
def Method.isEndpoint (m : Method) : Bool :=
  m.annotations.any fun a => a.matchesAny EndpointMark.all

namespace DeclaredType

def endpointMethods (t : DeclaredType) : List Method := t.methods.filter (·.isEndpoint)

/-- A type with a mark is a controller; one that is marked as nothing but a service has to declare an
endpoint as well. -/
def isController (t : DeclaredType) : Bool :=
  match t.annotations.filterMap (·.mark? ControllerMark) with
  | [] => false
  | marks =>
    if marks.all (· == .service) then t.methods.any (·.isEndpoint) else true

end DeclaredType

end EndpointAtlas
