/-
  Configuration files — `phpver.toml`, which is looked for from a directory upward.

      [matrix]
      include-future = true
      include-unsupported = false
      support-policy = "secure-only"

      [catalog]
      url = "…"
      file = "versions.json"

  Everything is optional, and unknown keys are ignored; a known key with a value of another type
  spoils the whole file.  Where a table is expected, an array of its values in this order is taken
  too, and a date, which is a table of no known key.

  The nearest file decides alone: if it cannot be read, the search does not go on.  A relative
  catalog file is meant relative to the directory of the configuration file.
-/
import ReleaseMatrix.FileTree
import ReleaseMatrix.Release
import ReleaseMatrix.Toml.Reader

namespace ReleaseMatrix

/-- What a configuration file says; what it leaves open is `none`. -/
structure Config where
  includeFuture : Option Bool
  includeUnsupported : Option Bool
  policy : Option SupportPolicy
  catalogUrl : Option String
  catalogFile : Option String
deriving DecidableEq, Repr

namespace Config

/-- The name of a configuration file. -/
def fileName : String := "phpver.toml"

/-- Nothing is configured. -/
def empty : Config := ⟨none, none, none, none, none⟩

/-! ## Types of values

  A reader of a type answers `none` if the value is of another one. -/

/-- A truth value. -/
def bool? : Toml → Option Bool
  | .boolean b => some b
  | _ => none

/-- A text. -/
def text? : Toml → Option String
  | .string s => some s
  | _ => none

/-- Nothing: an empty array or table. -/
def isVoid : Toml → Bool
  | .array [] | .table _ [] => true
  | _ => false

/-- A policy, by its exact name; also as the only key of a table, with nothing under it. -/
def policy? : Toml → Option SupportPolicy
  | .string s => SupportPolicy.named? s
  | .table _ [(name, v)] => if isVoid v then SupportPolicy.named? name else none
  | _ => none

/-- The values that a section gives to a list of keys, by key or by position. -/
def values? (keys : List String) : Toml → Option (List (Option Toml))
  | .table _ ms => some (keys.map fun k => ms.lookup k)
  | .array items => some (keys.zipIdx.map fun (_, i) => items[i]?)
  | .rows tables => some (keys.zipIdx.map fun (_, i) => (tables.reverse[i]?).map (.table .header))
  | .date => some (keys.map fun _ => none)
  | _ => none

/-- A value that may be missing. -/
def optional? {α : Type} (read : Toml → Option α) : Option Toml → Option (Option α)
  | none => some none
  | some v => (read v).map some

/-! ## Sections -/

/-- Reads the section `matrix`. -/
def addMatrix? (c : Config) (section? : Option Toml) : Option Config :=
  match section? with
  | none => some c
  | some v => do
    match ← values? ["include-future", "include-unsupported", "support-policy"] v with
    | [future, unsupported, policy] =>
      return { c with
        includeFuture := ← optional? bool? future
        includeUnsupported := ← optional? bool? unsupported
        policy := ← optional? policy? policy }
    | _ => none

/-- Reads the section `catalog`. -/
def addCatalog? (c : Config) (section? : Option Toml) : Option Config :=
  match section? with
  | none => some c
  | some v => do
    match ← values? ["url", "file"] v with
    | [url, file] =>
      return { c with catalogUrl := ← optional? text? url, catalogFile := ← optional? text? file }
    | _ => none

/-- The configuration that a document holds. -/
def ofText? (text : String) : Option Config := do
  let ms ← Toml.ofText? text
  (← empty.addMatrix? (ms.lookup "matrix")).addCatalog? (ms.lookup "catalog")

/-! ## Searching -/

/-- Why a configuration could not be loaded from a path. -/
inductive Failure where
  | unreadable (path : String) (cause : FileError)
  | malformed (path : String)
deriving DecidableEq, Repr

/-- What is reported for it. -/
def Failure.message : Failure → String
  | unreadable path _ => "Failed to read " ++ path
  | malformed path => "Failed to parse " ++ path

/-- What lies behind it.  `<toml>` stands for the text of the TOML reader, which shows the place. -/
def Failure.cause : Failure → String
  | unreadable _ cause => cause.message
  | malformed _ => "<toml>"

/-- The directories in which a configuration is looked for, nearest first: a directory that exists
is taken by its full path, any other path as it is written. -/
def directories (t : FileTree) (start : String) : List String :=
  Path.selfAndAbove
    (match t.canonical start with
      | .ok full => full
      | .error _ => start)

/-- The nearest directory with a configuration file. -/
def find? (t : FileTree) (start : String) : Option String :=
  (directories t start).find? fun dir => t.hasFile (Path.join dir fileName)

/-- The configuration with its catalog file below a directory. -/
def inDirectory (dir : String) (c : Config) : Config :=
  { c with catalogFile := c.catalogFile.map (Path.join dir) }

/-- Loads the configuration file of a directory. -/
def loadFrom (t : FileTree) (dir : String) : Except Failure Config :=
  let path := Path.join dir fileName
  match t.readText path with
  | .error cause => .error (.unreadable path cause)
  | .ok text =>
    match ofText? text with
    | none => .error (.malformed path)
    | some c => .ok (c.inDirectory dir)

/-- **Loading**: the nearest configuration from a directory upward, if there is one. -/
def load (t : FileTree) (start : String) : Except Failure (Option Config) :=
  match find? t start with
  | none => .ok none
  | some dir => (loadFrom t dir).map some

end Config
end ReleaseMatrix
