import EndpointAtlas.Failure
import EndpointAtlas.Files.Tree
import EndpointAtlas.Text.Utf8

/-!
Report files. Writing a report makes the directories above it; what a file held before is lost.
-/

namespace EndpointAtlas.Report

open Text

/-- Writes a text, with a line break at its end, to the file a path leads to. -/
def write (t : FileTree) (current : Place) (path : String) (text : List Char) :
    FileTree × Option ReportFailure :=
  let (t, failure) : FileTree × Option ReportFailure :=
    match Path.parent? path with
    | some parent =>
      let (t, fault) := t.makeDirectories current parent
      (t, fault.map fun f => ⟨.makeDirectory, parent, some f⟩)
    | none => (t, none)
  match failure with
  | some f => (t, some f)
  | none =>
    match t.write current path (Utf8.encode (text ++ ['\n'])) with
    | .ok t => (t, none)
    | .error f => (t, some ⟨.create, path, some f⟩)

def read {α : Type} (reader : List Char → Option α) (t : FileTree) (current : Place) (path : String) :
    Except ReportFailure α :=
  match t.find current path with
  | .error f => .error ⟨.open, path, some f⟩
  | .ok (.file content) =>
    match (Utf8.decode? content).bind reader with
    | some x => .ok x
    | none => .error ⟨.parse, path, none⟩
  | .ok _ => .error ⟨.parse, path, some .isDirectory⟩

end EndpointAtlas.Report
