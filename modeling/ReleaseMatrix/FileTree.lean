/-
  File trees — what a run can read and write, as a value.

  A tree says for every absolute location, a list of names from the root down, whether a file or a
  directory is there.  Paths are followed name by name: each step needs a directory to start from,
  `.` stays, `..` goes up, and a slash at the end asks for a directory.

  Whatever there is can be opened: a tree has no permissions, no links and no devices that fail, so a
  file cannot be read only if it is no text, and cannot be written only if it is a directory.

  1. **Locating** — `FileTree.locate`.
  2. **Reading** — `FileTree.readText`: the bytes must be UTF-8.
  3. **Appending** — `FileTree.append`: a missing file is created in an existing directory.
-/
import ReleaseMatrix.Path

namespace ReleaseMatrix

/-- Why a file could not be read or written. -/
inductive FileError where
  | notFound
  | notDirectory
  | isDirectory
  | nameTooLong
  | nulInName
  | notText
deriving DecidableEq, Repr

/-- What is reported for it. -/
def FileError.message : FileError → String
  | notFound => "No such file or directory (os error 2)"
  | notDirectory => "Not a directory (os error 20)"
  | isDirectory => "Is a directory (os error 21)"
  | nameTooLong => "File name too long (os error 36)"
  | nulInName => "file name contained an unexpected NUL byte"
  | notText => "stream did not contain valid UTF-8"

/-- What is found at a location, and can be read and written by the run. -/
inductive Entry where
  | file (content : ByteArray)
  | directory

/-- A location: the names from the root down. -/
abbrev Location := List String

/-- The files and directories that there are. -/
structure FileTree where
  /-- What is at a location, if anything. -/
  entry? : Location → Option Entry
  /-- Where relative paths start. -/
  current : Location

namespace FileTree

open Text

/-! ## Locating -/

/-- The names of a path, without the empty ones. -/
def names (path : String) : List String :=
  ((Path.parts path.toList).filter (fun part => !part.isEmpty)).map String.ofList

/-- The most bytes of a name, and one more than those of a path. -/
def maxName : Nat := 255

/-- The least number of bytes that make a path too long. -/
def maxPath : Nat := 4096

/-- A file stands where a directory is needed. -/
def isFileAt (t : FileTree) (l : Location) : Bool :=
  match t.entry? l with
  | some (.file _) => true
  | _ => false

/-- One step from a location. -/
def step (t : FileTree) (l : Location) (name : String) : Except FileError Location :=
  if t.isFileAt l then .error .notDirectory
  else if name = "." then .ok l
  else if name = ".." then .ok l.dropLast
  else if maxName < name.utf8ByteSize then .error .nameTooLong
  else if (t.entry? (l ++ [name])).isSome then .ok (l ++ [name])
  else .error .notFound

/-- Where a path starts; some paths lead nowhere at all. -/
def start (t : FileTree) (path : String) : Except FileError Location :=
  if path.toList.contains '\x00' then .error .nulInName
  else if path.isEmpty then .error .notFound
  else if maxPath ≤ path.utf8ByteSize then .error .nameTooLong
  else .ok (if Path.isAbsolute path then [] else t.current)

/-- A slash ends the path. -/
def endsInSlash (path : String) : Bool := path.toList.getLast? == some '/'

/-- Where a path leads. -/
def locate (t : FileTree) (path : String) : Except FileError Location := do
  let l ← (names path).foldlM t.step (← t.start path)
  if endsInSlash path && t.isFileAt l then throw .notDirectory
  return l

/-- The full path of an existing location. -/
def canonical (t : FileTree) (path : String) : Except FileError String := do
  return "/" ++ "/".intercalate (← t.locate path)

/-! ## Reading -/

/-- A path leads to a file. -/
def hasFile (t : FileTree) (path : String) : Bool :=
  match t.locate path with
  | .ok l => t.isFileAt l
  | .error _ => false

/-- The text of the file that a path leads to. -/
def readText (t : FileTree) (path : String) : Except FileError String := do
  match t.entry? (← t.locate path) with
  | none => throw .notFound
  | some .directory => throw .isDirectory
  | some (.file content) =>
    match String.fromUTF8? content with
    | some s => return s
    | none => throw .notText

/-! ## Appending -/

/-- The tree with other content at one location. -/
def put (t : FileTree) (l : Location) (content : ByteArray) : FileTree :=
  { t with entry? := fun l' => if l' = l then some (.file content) else t.entry? l' }

/-- Where a file that need not exist is to be written: the directory must exist. -/
def locateNew (t : FileTree) (path : String) : Except FileError Location := do
  let l ← t.start path
  match (names path).reverse with
  | [] => throw .isDirectory
  | last :: before =>
    let l ← before.reverse.foldlM t.step l
    if t.isFileAt l then throw .notDirectory
    -- only a directory can be written with a slash or a dot at the end
    if endsInSlash path || last = "." || last = ".." then throw .isDirectory
    if maxName < last.utf8ByteSize then throw .nameTooLong
    return l ++ [last]

/-- Writes a text behind what the file holds already. -/
def append (t : FileTree) (path text : String) : Except FileError FileTree := do
  let l ← t.locateNew path
  match t.entry? l with
  | some .directory => throw .isDirectory
  | some (.file content) => return t.put l (content ++ text.toUTF8)
  | none => return t.put l text.toUTF8

end FileTree
end ReleaseMatrix
