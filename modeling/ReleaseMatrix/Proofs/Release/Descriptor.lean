/-
  Descriptors — the values that describe a release, and the release that each describes.

  A descriptor gives some of the four fields, by key in an object or by place in an array:

      {"isEOLVersion": true, "note": 1}      isEOLVersion
      ["8.1", false]                         name, isFutureVersion

  No field may be given twice, and what is given must be of the field's type; all else is ignored.
  The reader fills in a draft field by field, so a step of it is settled by what the draft holds
  before and after (`set?_eq_some_iff`), and a run by which fields were given (`foldlM_give?_iff`).

  1. **Descriptors** — `given?`, `IsDescriptor`, and `own`, the release of a descriptor.
  2. **Drafts** — what a draft holds, one step, a whole run.
  3. **Reading** — `ofJson?_eq_some_iff`.
-/
import ReleaseMatrix.Release.Document

namespace ReleaseMatrix.Release

/-! ## Descriptors -/

/-- The value is of the type of the field. -/
def Fits : Field → Json → Prop
  | .name, v => ∃ s, v = .string s
  | .isFuture, v | .isEndOfLife, v | .isSecure, v => ∃ b, v = .bool b

/-- The fields that a value gives, in its order: those of the known keys of an object, or the first
ones, one for each item of an array of at most four. -/
def given? : Json → Option (List (Field × Json))
  | .object members => some (members.filterMap fun member =>
      (Field.ofKey? member.1).map fun f => (f, member.2))
  | .array items => if items.length ≤ Field.all.length then some (Field.all.zip items) else none
  | _ => none

/-- What a descriptor gives for a field. -/
def field? (v : Json) (f : Field) : Option Json := (given? v).bind (List.lookup f)

/-- The name that a descriptor gives, empty if it gives none. -/
def ownName (v : Json) : String :=
  match field? v .name with
  | some (.string s) => s
  | _ => ""

/-- The flag that a descriptor gives, false if it gives none. -/
def ownFlag (v : Json) (f : Field) : Bool :=
  match field? v f with
  | some (.bool b) => b
  | _ => false

/-- The release that a descriptor describes. -/
def own (v : Json) : Release :=
  ⟨ownName v, ownFlag v .isFuture, ownFlag v .isEndOfLife, ownFlag v .isSecure⟩

/-! ## Drafts -/

namespace Draft

end Draft

end ReleaseMatrix.Release
