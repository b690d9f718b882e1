import EndpointAtlas.Declaration.TypeReference

/-!
The declarations of a source file, as far as endpoints depend on them: its package, its classes and
interfaces, their annotations and methods, and the interfaces that a class implements.
-/

namespace EndpointAtlas

/-- An annotation by its name as written, which may be qualified. -/
structure Annotation where
  name : String
  deriving DecidableEq, Repr, Inhabited

structure Parameter where
  name : String
  type : String
  deriving DecidableEq, Repr, Inhabited

structure Method where
  name : String
  returnType : String
  parameters : List Parameter
  annotations : List Annotation
  deriving DecidableEq, Repr, Inhabited

def Method.returnsVoid (m : Method) : Bool := m.returnType == "void"

inductive TypeKind where
  | classType
  | interfaceType
  deriving DecidableEq, Repr, Inhabited

/-- A declared class or interface. Only a class implements interfaces. -/
structure DeclaredType where
  name : String
  kind : TypeKind
  annotations : List Annotation
  methods : List Method
  implemented : List TypeReference
  deriving DecidableEq, Repr, Inhabited

def DeclaredType.isInterface (t : DeclaredType) : Bool := t.kind == .interfaceType

/-- What comes before a type's name in its qualified name: the package and a dot, nothing without a
package. -/
def packagePrefix (package : Option String) : String :=
  match package with
  | some p => if p.isEmpty then "" else p ++ "."
  | none => ""

/-- The package of a source file and its types, nested ones included. -/
structure SourceUnit where
  package : Option String
  types : List DeclaredType
  deriving DecidableEq, Repr, Inhabited

def SourceUnit.lead (u : SourceUnit) : String := packagePrefix u.package

end EndpointAtlas
