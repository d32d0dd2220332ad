/-
  Manifests — the PHP requirement that a project declares in its `composer.json`.

  Only the section `require` is kept, and only a string under its key `php` counts; the last one of
  several.  All else is passed over, and it may be any JSON.  A manifest may also be an array whose
  one item stands for that section, and an empty section is often written `[]`.
-/
import ReleaseMatrix.Json.Reader

namespace ReleaseMatrix.Manifest

open Json (Fault)

/-- The name of a manifest in its project's directory. -/
def fileName : String := "composer.json"

/-! ## The section -/

/-- Reads the section, which nests one level less than a document of its own could. -/
def readSection (cs : List Char) : Except Fault (Option Json × List Char) := do
  let (v, rest) ← Json.value .exact (Json.maxDepth - 1) cs
  return (some v, rest)

/-- Reads a member of the manifest, given the section if it has been read. -/
def readMember (section? : Option Json) (cs : List Char) :
    Except Fault (Option Json × List Char) := do
  let (k, rest) ← Json.key .exact cs
  if k = "require" then
    if section?.isSome then throw .unexpected
    readSection (← Json.afterColon rest)
  else return (section?, ← Json.skip (← Json.afterColon rest))

/-- Reads an item of a manifest that is an array; there may be one. -/
def readItem (section? : Option Json) (cs : List Char) :
    Except Fault (Option Json × List Char) :=
  if section?.isSome then .error .malformed else readSection cs

/-- The section at the start of a text, and the characters behind the manifest. -/
def read (cs : List Char) : Except Fault (Option Json × List Char) :=
  match Json.skipBlanks cs with
  | '\x7b' :: rest => Json.entries '\x7d' readMember none rest
  | '[' :: rest => Json.entries ']' readItem none rest
  | cs => do
    let _ ← Json.scalar .exact cs
    throw .unexpected

/-! ## The requirement -/

/-- The requirement that a section declares. -/
def phpOf : Json → Option String
  | .object members => (Json.lastMember? "php" members).bind Json.string?
  | _ => none

/-- **Reading a manifest**: the PHP requirement that it declares, if any. -/
def requirement? (text : String) : Except Fault (Option String) := do
  let (section?, rest) ← read text.toList
  Json.finish rest
  return section?.bind phpOf

end ReleaseMatrix.Manifest
