/-
  Catalogs — the known releases, in the order in which a document lists them.

  A catalog document is `{"data": D}`, where `D` is an object of releases or an array of them; or it
  is such an array itself.  In an object of releases
  1. a repeated key keeps its first place and takes its last value;
  2. a release without a name is named by its key.

  A document is read in three steps, and the first that fails decides: one value, then its shape,
  then the end of the text.
-/
import ReleaseMatrix.Release.Document

namespace ReleaseMatrix.Catalog

open Json (Fault)

/-- Where the catalog service is asked unless told otherwise. -/
def defaultUrl : String := "https://php.watch/api/v1/versions"

/-! ## Keyed releases -/

/-- Puts a value under a key: in place if the key is there already, else at the end. -/
def insert {α : Type} (key : String) (value : α) : List (String × α) → List (String × α)
  | [] => [(key, value)]
  | (k, v) :: rest => if k = key then (k, value) :: rest else (k, v) :: insert key value rest

/-- The entries with each key once, at its first place and with its last value. -/
def distinct {α : Type} (entries : List (String × α)) : List (String × α) :=
  entries.foldl (fun known (key, value) => insert key value known) []

/-- A release under its key, which names it if nothing else does. -/
def named (key : String) (r : Release) : Release :=
  if r.name = "" then { r with name := key } else r

/-! ## Shapes -/

/-- A member of an object of releases. -/
def entry? (member : String × Json) : Option (String × Release) :=
  (Release.ofJson? member.2).map (member.1, ·)

/-- The releases of an object or an array of them. -/
def ofData? : Json → Option (List Release)
  | .object members => do
    let entries ← members.mapM entry?
    return (distinct entries).map fun (key, r) => named key r
  | .array items => items.mapM Release.ofJson?
  | _ => none

/-- The releases of a catalog document: an object has exactly one `data` among its members. -/
def ofJson? : Json → Option (List Release)
  | .object members =>
    match members.filter (fun member => member.1 == "data") with
    | [(_, data)] => ofData? data
    | _ => none
  | .array items => items.mapM Release.ofJson?
  | _ => none

/-! ## Reading -/

/-- **Reading a catalog document.** -/
def ofText (text : String) : Except Fault (List Release) := do
  let (v, rest) ← Json.value .exact Json.maxDepth text.toList
  match ofJson? v with
  | none => throw .unexpected
  | some releases => do
    Json.finish rest
    return releases

end ReleaseMatrix.Catalog
