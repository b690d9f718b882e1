import EndpointAtlas.Declaration.Basic

/-!
The annotations that mark controllers and endpoints. An annotation is recognised by its simple name:
the part of its name after the last dot.
-/

namespace EndpointAtlas

open Text

inductive ControllerMark where
  | controller | restController | path | applicationPath | service
  deriving DecidableEq, Repr, Inhabited

inductive EndpointMark where
  | getMapping | postMapping | putMapping | deleteMapping | patchMapping | requestMapping
  | responseBody
  deriving DecidableEq, Repr, Inhabited

class Vocabulary (μ : Type) where
  all : List μ
  name : μ → String

namespace ControllerMark

def all : List ControllerMark := [.controller, .restController, .path, .applicationPath, .service]

def name : ControllerMark → String
  | controller => "Controller"
  | restController => "RestController"
  | path => "Path"
  | applicationPath => "ApplicationPath"
  | service => "Service"

instance : Vocabulary ControllerMark := ⟨all, name⟩

end ControllerMark

namespace EndpointMark

def all : List EndpointMark :=
  [.getMapping, .postMapping, .putMapping, .deleteMapping, .patchMapping, .requestMapping,
    .responseBody]

def name : EndpointMark → String
  | getMapping => "GetMapping"
  | postMapping => "PostMapping"
  | putMapping => "PutMapping"
  | deleteMapping => "DeleteMapping"
  | patchMapping => "PatchMapping"
  | requestMapping => "RequestMapping"
  | responseBody => "ResponseBody"

instance : Vocabulary EndpointMark := ⟨all, name⟩

end EndpointMark

def markNamed? (μ : Type) [Vocabulary μ] (s : String) : Option μ :=
  (Vocabulary.all : List μ).find? fun m => Vocabulary.name m == s

namespace Annotation

def simpleName (a : Annotation) : String := .ofList (lastSegment a.name.toList)

def mark? (μ : Type) [Vocabulary μ] (a : Annotation) : Option μ := markNamed? μ a.simpleName

def matchesAny {μ : Type} [Vocabulary μ] [DecidableEq μ] (a : Annotation) (marks : List μ) : Bool :=
  match a.mark? μ with
  | some m => marks.contains m
  | none => false

end Annotation

end EndpointAtlas
