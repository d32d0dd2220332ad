/-
  Loading a catalog, and why that can fail: the file cannot be read, the service does not answer or
  answers with a bad status, or the document is no catalog.
-/
import ReleaseMatrix.Catalog
import ReleaseMatrix.FileTree

namespace ReleaseMatrix.Catalog

/-- Why a catalog could not be loaded. -/
inductive Failure where
  /-- No answer, or one that breaks off. -/
  | request
  | status (code : Nat) (url : String)
  | unreadable (path : String) (cause : FileError)
  | document (fault : Json.Fault)
deriving DecidableEq, Repr

namespace Failure

/-- What lies behind a failure, if that is reported too.  For a request it is a text of the HTTP
client, with causes of its own; `<request>` stands for all of them. -/
def cause? : Failure → Option String
  | request => some "<request>"
  | status _ _ => none
  | unreadable _ cause => some cause.message
  | document fault => some fault.message

/-- What is reported. -/
def message : Failure → String
  | request => "Request failed: <request>"
  | status code url => "HTTP " ++ code.repr ++ ": " ++ url
  | unreadable path cause => "Failed to read release catalog " ++ path ++ ": " ++ cause.message
  | document fault => "Failed to parse release catalog: " ++ fault.message

end Failure

/-- The catalog of a document. -/
def ofDocument (text : String) : Except Failure (List Release) :=
  match ofText text with
  | .ok releases => .ok releases
  | .error fault => .error (.document fault)

/-- The catalog in a file. -/
def loadFile (t : FileTree) (path : String) : Except Failure (List Release) :=
  match t.readText path with
  | .error cause => .error (.unreadable path cause)
  | .ok text => ofDocument text

end ReleaseMatrix.Catalog
