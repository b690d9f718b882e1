import EndpointAtlas.Declaration.Basic
import EndpointAtlas.Declaration.TypeText
import EndpointAtlas.Syntax.Node

/-!
The declarations that a syntax tree holds. Types are found in source order wherever they stand, each
before the types inside it; a method belongs to the type whose body it stands in.
-/

namespace EndpointAtlas.Lowering

open Grammar Syntax Text

def child? (n : Node) (r : Role) : Option Node := n.children.find? fun c => c.role == some r

def isConstruct (c : Construct) (n : Node) : Bool := n.kind == .construct c

def isIdentifier (n : Node) : Bool := n.kind == .terminal .identifier

def textOf (n : Node) : String := .ofList n.text

def compactText (n : Node) : String := .ofList (compact n.text)

def typeText (n : Node) : String := .ofList (TypeText.print n.text)

/-- The annotation that a node is, unless its name is missing. -/
def markup? (n : Node) : Option Annotation :=
  if isConstruct .annotationMarker n || isConstruct .annotationCall n then
    match child? n .name with
    | some name =>
      let name := compactText name
      if name.isEmpty then none else some ⟨name⟩
    | none => none
  else none

/-- The annotations of a declaration, among its modifiers and beside them. -/
def annotations (n : Node) : List Annotation :=
  n.children.flatMap fun c =>
    if isConstruct .modifiers c then c.children.filterMap markup? else (markup? c).toList

def dimensioned (n type : Node) : String :=
  match child? n .dimensions with
  | some dimensions => typeText type ++ typeText dimensions
  | none => typeText type

def nameOrEmpty (n : Node) : String := ((child? n .name).map textOf).getD ""

def formalParameter? (n : Node) : Option Parameter :=
  (child? n .type).map fun type => ⟨nameOrEmpty n, dimensioned n type⟩

/-- A parameter that takes any number of arguments, with the type of one of them. -/
def spreadParameter? (n : Node) : Option Parameter :=
  let parts := n.children.filter fun c => c.isNamed && !isConstruct .modifiers c
  let (declarators, others) := parts.partition (isConstruct .variableDeclarator)
  others.head?.map fun type =>
    ⟨((declarators.getLast?).map nameOrEmpty).getD "", typeText type⟩

/-- The parameter that a node declares. A receiver is none. -/
def parameter? (n : Node) : Option Parameter :=
  if isConstruct .formalParameter n then formalParameter? n
  else if isConstruct .spreadParameter n then spreadParameter? n
  else none

def method? (n : Node) : Option Method :=
  match child? n .name, child? n .type with
  | some name, some type =>
    some
      { name := textOf name
        returnType := dimensioned n type
        parameters := ((child? n .parameters).map fun ps =>
          ps.children.filterMap parameter?).getD []
        annotations := annotations n }
  | _, _ => none

def methods (body : Node) : List Method :=
  body.children.filterMap fun c => if isConstruct .methodDeclaration c then method? c else none

mutual

/-- The reference to a named type. Primitive types and arrays are not referred to. -/
def reference? : Node → Option TypeReference
  | .leaf kind _ _ text _ =>
    if kind == .typeIdentifier then TypeReference.parse (.ofList text) else none
  | .branch kind role broken ns =>
    match kind with
    | .construct .scopedTypeIdentifier => TypeReference.parse (textOf (.branch kind role broken ns))
    | .construct .genericType => firstReference? ns
    | .construct .annotatedType => lastReference? ns none
    | _ => none

def firstReference? : List Node → Option TypeReference
  | [] => none
  | n :: ns => if n.isNamed then reference? n else firstReference? ns

/-- The reference of the last named node, `found` where there is no such node. -/
def lastReference? : List Node → Option TypeReference → Option TypeReference
  | [], found => found
  | n :: ns, found => lastReference? ns (if n.isNamed then reference? n else found)

end

def implemented (clause : Node) : List TypeReference :=
  (clause.children.filter (isConstruct .typeList)).flatMap fun list =>
    (list.children.filter (·.isNamed)).filterMap reference?

/-- The type that a node declares, if the node is a class or an interface with a name. -/
def declaredType? (n : Node) : Option DeclaredType :=
  let kind? : Option TypeKind :=
    if isConstruct .classDeclaration n then some .classType
    else if isConstruct .interfaceDeclaration n then some .interfaceType
    else none
  match kind? with
  | none => none
  | some kind =>
    let name := nameOrEmpty n
    if name.isEmpty then none
    else some
      { name
        kind
        annotations := annotations n
        methods := ((child? n .body).map methods).getD []
        implemented := match kind with
          | .classType => ((child? n .interfaces).map implemented).getD []
          | .interfaceType => [] }

mutual

def declaredTypes : Node → List DeclaredType
  | .leaf .. => []
  | .branch kind role broken ns =>
    (declaredType? (.branch kind role broken ns)).toList ++ declaredTypesOf ns

def declaredTypesOf : List Node → List DeclaredType
  | [] => []
  | n :: ns => declaredTypes n ++ declaredTypesOf ns

end

/-- The package that a package declaration names, empty when the name is missing. -/
def packageName (n : Node) : String :=
  let isName (c : Node) := isConstruct .scopedIdentifier c || isIdentifier c
  ((n.children.find? isName).map compactText).getD ""

/-- The last package named at the top of a file. -/
def package? (root : Node) : Option String :=
  let names := (root.children.filter (isConstruct .packageDeclaration)).map packageName
  (names.filter fun name => !name.isEmpty).getLast?

end EndpointAtlas.Lowering

namespace EndpointAtlas

def SourceUnit.ofNode (root : Syntax.Node) : SourceUnit :=
  ⟨Lowering.package? root, Lowering.declaredTypesOf root.children⟩

end EndpointAtlas
