/-
  Loading a manifest, and why that can fail: the file cannot be read, or it holds no manifest.
-/
import ReleaseMatrix.FileTree
import ReleaseMatrix.Manifest

namespace ReleaseMatrix.Manifest

/-- Why a manifest could not be loaded from a path. -/
inductive Failure where
  | unreadable (path : String) (cause : FileError)
  | malformed (path : String) (fault : Json.Fault)
deriving DecidableEq, Repr

namespace Failure

/-- What lies behind a failure. -/
def cause : Failure → String
  | unreadable _ cause => cause.message
  | malformed _ fault => fault.message

/-- What is reported. -/
def message : Failure → String
  | unreadable path cause => "Failed to read " ++ path ++ ": " ++ cause.message
  | malformed path fault => "Failed to parse " ++ path ++ ": " ++ fault.message

end Failure

/-- Where the manifest of a project's directory is. -/
def path (dir : String) : String := Path.join dir fileName

/-- The requirement that the manifest at a path declares, if any. -/
def load (t : FileTree) (path : String) : Except Failure (Option String) :=
  match t.readText path with
  | .error cause => .error (.unreadable path cause)
  | .ok text =>
    match requirement? text with
    | .error fault => .error (.malformed path fault)
    | .ok r => .ok r

end ReleaseMatrix.Manifest
