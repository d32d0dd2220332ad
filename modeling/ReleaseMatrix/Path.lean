/-
  Paths as text — joining them and going up, without looking at any files.

  A path keeps the way it was written: `join` adds a slash only where none stands, and `parent?`
  cuts off the last *part that matters* together with what does not matter before it.  Empty parts
  do not matter, nor does `.`, unless a relative path begins with it; `..` does.
-/
import ReleaseMatrix.Text.Split

namespace ReleaseMatrix.Path

open Text

/-- The path starts at the root. -/
def isAbsolute (path : String) : Bool := path.toList.head? == some '/'

/-! ## Joining -/

/-- The path below `base`; an absolute one stands for itself. -/
def join (base path : String) : String :=
  if isAbsolute path || base.isEmpty then path
  else if base.toList.getLast? == some '/' then base ++ path
  else base ++ "/" ++ path

/-! ## Going up -/

/-- The parts between the slashes, empty ones included. -/
def parts (cs : List Char) : List (List Char) := splitWhere (· == '/') cs

/-- The parts joined with slashes again. -/
def ofParts : List (List Char) → List Char
  | [] => []
  | [part] => part
  | part :: rest => part ++ '/' :: ofParts rest

/-- Drops the parts at the end that do not matter; `parts` are given from the last to the first,
and `relative` says that the first one starts a relative path. -/
def dropIdle (relative : Bool) : List (List Char) → List (List Char)
  | [] => []
  | part :: before =>
    if part.isEmpty || (part == ['.'] && !(relative && before.isEmpty)) then
      dropIdle relative before
    else part :: before

/-- The path of the directory that holds the path's last part; the root and the empty path have
none. -/
def parent? (path : String) : Option String :=
  let above (relative : Bool) (body : List Char) : Option (List Char) :=
    match dropIdle relative (parts body).reverse with
    | [] => none
    | _ :: before => some (ofParts (dropIdle relative before).reverse)
  match path.toList with
  | '/' :: body => (above false body).map fun cs => String.ofList ('/' :: cs)
  | body => (above true body).map String.ofList

/-- The path and all paths above it, nearest first.  Each is shorter than the one before, so the
length of the path is steps enough. -/
def selfAndAbove (path : String) : List String :=
  go path.length path
where
  go : Nat → String → List String
    | 0, path => [path]
    | steps + 1, path =>
      match parent? path with
      | none => [path]
      | some up => path :: go steps up

end ReleaseMatrix.Path
