/-!
Why a file or directory could not be read or written.
-/

namespace EndpointAtlas

inductive Fault where
  | notFound | occupied | notDirectory | isDirectory | tooManyLinks
  deriving DecidableEq, Repr, Inhabited

def Fault.message : Fault → String
  | notFound => "No such file or directory (os error 2)"
  | occupied => "File exists (os error 17)"
  | notDirectory => "Not a directory (os error 20)"
  | isDirectory => "Is a directory (os error 21)"
  | tooManyLinks => "Too many levels of symbolic links (os error 40)"

end EndpointAtlas
