/-
  Releases — what a catalog says of one release line, and which lines count as supported.

  A release has a name, which need not hold a version, and three flags.  Its document is a JSON
  object with a member for each of the four, in this order:

      {"name": "8.1", "isFutureVersion": false, "isEOLVersion": false, "isSecureVersion": true}
-/
import ReleaseMatrix.Json

namespace ReleaseMatrix

/-- One release line. -/
structure Release where
  name : String
  /-- Not yet generally available. -/
  isFuture : Bool
  /-- No longer maintained. -/
  isEndOfLife : Bool
  /-- Still receives security fixes. -/
  isSecure : Bool
deriving DecidableEq, Repr, Inhabited

/-! ## Support -/

/-- What counts as supported. -/
inductive SupportPolicy where
  /-- Secure, or not yet past the end of life. -/
  | secureOrMaintained
  /-- Secure only. -/
  | secureOnly
deriving DecidableEq, Repr, Inhabited

namespace SupportPolicy

/-- The policy that holds where none is chosen. -/
def default : SupportPolicy := secureOrMaintained

/-- The name of a policy. -/
def text : SupportPolicy → String
  | secureOrMaintained => "secure-or-maintained"
  | secureOnly => "secure-only"

/-- The policies. -/
def all : List SupportPolicy := [secureOrMaintained, secureOnly]

/-- The text names no policy. -/
structure Unknown where
  text : String
deriving DecidableEq, Repr

/-- What is reported for it. -/
def Unknown.message (u : Unknown) : String :=
  "invalid support policy \"" ++ u.text ++ "\", expected secure-or-maintained or secure-only"

/-- The policy of this very name. -/
def named? (name : String) : Option SupportPolicy := all.find? (·.text == name)

/-- Reads the name of a policy in any letter case.  Lowering ASCII letters is enough: no other
character has one of the letters of these names for its small letter. -/
def read (text : String) : Except Unknown SupportPolicy :=
  match named? text.toLower with
  | some policy => .ok policy
  | none => .error ⟨text⟩

end SupportPolicy

namespace Release

/-- A generally available, maintained release: no flag is set. -/
def ofName (name : String) : Release := ⟨name, false, false, false⟩

/-- Whether a policy counts the release as supported. -/
def isSupported (r : Release) : SupportPolicy → Bool
  | .secureOrMaintained => r.isSecure || !r.isEndOfLife
  | .secureOnly => r.isSecure

/-! ## Document -/

/-- The members of a release's document. -/
inductive Field where
  | name
  | isFuture
  | isEndOfLife
  | isSecure
deriving DecidableEq, Repr

namespace Field

/-- The key of a member. -/
def key : Field → String
  | name => "name"
  | isFuture => "isFutureVersion"
  | isEndOfLife => "isEOLVersion"
  | isSecure => "isSecureVersion"

/-- The members in the order in which they are written. -/
def all : List Field := [name, isFuture, isEndOfLife, isSecure]

/-- The member of a key. -/
def ofKey? (key : String) : Option Field := all.find? (·.key == key)

end Field

/-- The document of a release. -/
def toJson (r : Release) : Json :=
  .object [(Field.name.key, .string r.name), (Field.isFuture.key, .bool r.isFuture),
    (Field.isEndOfLife.key, .bool r.isEndOfLife), (Field.isSecure.key, .bool r.isSecure)]

end Release
end ReleaseMatrix
