/-
  Reading a release from JSON.

  A release is an object, of which unknown members are ignored, missing ones default to the empty
  name and to false, and a repeated known one is refused; or it is an array of its members in their
  order, where the last ones may be missing and none may follow.

  1. `Release.ofJson?` takes a value that has been read already, as catalogs do.
  2. `Release.ofText` reads a document of its own, and reports the first fault in reading order:
     a wrong shape is found where it stands, before the text behind it is looked at.  Unknown
     members are only passed over there.

  Both fill in a *draft*, in which each member has a value or not yet.
-/
import ReleaseMatrix.Json.Reader
import ReleaseMatrix.Release

namespace ReleaseMatrix.Release

open Json (Fault)

/-! ## Drafts -/

/-- A release whose members are not all known yet. -/
structure Draft where
  name : Option String
  isFuture : Option Bool
  isEndOfLife : Option Bool
  isSecure : Option Bool
deriving DecidableEq, Repr

namespace Draft

/-- Nothing is known yet. -/
def empty : Draft := ⟨none, none, none, none⟩

/-- The member has a value. -/
def has (d : Draft) : Field → Bool
  | .name => d.name.isSome
  | .isFuture => d.isFuture.isSome
  | .isEndOfLife => d.isEndOfLife.isSome
  | .isSecure => d.isSecure.isSome

/-- Gives a member its value; `none` if the value is not of the member's type. -/
def set? (d : Draft) : Field → Json → Option Draft
  | .name, .string s => some { d with name := some s }
  | .isFuture, .bool b => some { d with isFuture := some b }
  | .isEndOfLife, .bool b => some { d with isEndOfLife := some b }
  | .isSecure, .bool b => some { d with isSecure := some b }
  | _, _ => none

/-- The release, with defaults for what is still missing. -/
def release (d : Draft) : Release :=
  ⟨d.name.getD "", d.isFuture.getD false, d.isEndOfLife.getD false, d.isSecure.getD false⟩

/-! ## From values -/

/-- Fills in one member of an object. -/
def addMember? (d : Draft) (member : String × Json) : Option Draft :=
  match Field.ofKey? member.1 with
  | none => some d
  | some f => if d.has f then none else d.set? f member.2

/-- Fills in the members of an array from the given field on. -/
def addItems? (d : Draft) : List Field → List Json → Option Draft
  | _, [] => some d
  | [], _ :: _ => none
  | f :: fields, item :: items => (d.set? f item).bind fun d => d.addItems? fields items

/-! ## From text -/

/-- Reads the value of a member. -/
def readField (d : Draft) (f : Field) (cs : List Char) : Except Fault (Draft × List Char) :=
  match Json.skipBlanks cs with
  -- the shape is wrong as soon as the value opens
  | '[' :: _ | '\x7b' :: _ => .error .unexpected
  | cs => do
    let (v, rest) ← Json.scalar .exact cs
    match d.set? f v with
    | some d => return (d, rest)
    | none => throw .unexpected

/-- Reads a member of an object. -/
def readMember (d : Draft) (cs : List Char) : Except Fault (Draft × List Char) := do
  let (k, rest) ← Json.key .exact cs
  match Field.ofKey? k with
  | none => return (d, ← Json.skip (← Json.afterColon rest))
  | some f =>
    if d.has f then throw .unexpected
    d.readField f (← Json.afterColon rest)

/-- Reads an item of an array, given the fields that are still to come. -/
def readItem : Draft × List Field → List Char → Except Fault ((Draft × List Field) × List Char)
  | (_, []), _ => .error .malformed
  | (d, f :: fields), cs => do
    let (d, rest) ← d.readField f cs
    return ((d, fields), rest)

end Draft

/-! ## Reading -/

/-- The release that a value describes. -/
def ofJson? : Json → Option Release
  | .object members => (members.foldlM Draft.addMember? Draft.empty).map Draft.release
  | .array items => (Draft.empty.addItems? Field.all items).map Draft.release
  | _ => none

/-- The draft at the start of a text, and the characters behind it. -/
def readDraft (cs : List Char) : Except Fault (Draft × List Char) :=
  match Json.skipBlanks cs with
  | '\x7b' :: rest => Json.entries '\x7d' Draft.readMember Draft.empty rest
  | '[' :: rest => do
    let ((d, _), rest) ← Json.entries ']' Draft.readItem (Draft.empty, Field.all) rest
    return (d, rest)
  | cs => do
    let _ ← Json.scalar .exact cs
    throw .unexpected

/-- **Reading a document** that describes one release. -/
def ofText (text : String) : Except Fault Release := do
  let (d, rest) ← readDraft text.toList
  Json.finish rest
  return d.release

end ReleaseMatrix.Release
