/-
  The version matrix — the releases that a requirement lets through, in ascending order.

  Releases pass three stages: the lifecycle filters, the requirement, and a stable sort.  Names are
  given out as the catalog spells them, and a name without a version never gets past the second.

  1. **Filters** — `Filters.admits`.
  2. **Matrix** — `Matrix.build`; the stages are `Filters.names`, `Matrix.candidates` and
     `Matrix.matching`.
-/
import ReleaseMatrix.Candidate
import ReleaseMatrix.Release
import ReleaseMatrix.Requirement

namespace ReleaseMatrix

/-- Which releases are looked at in the first place. -/
structure Filters where
  /-- Keep releases that are not generally available yet. -/
  includeFuture : Bool
  /-- Keep releases that the policy does not count as supported. -/
  includeUnsupported : Bool
  policy : SupportPolicy
deriving DecidableEq, Repr

namespace Filters

/-- No future releases, but unsupported ones. -/
def default : Filters := ⟨false, true, .default⟩

/-- Whether a release is looked at. -/
def admits (f : Filters) (r : Release) : Bool :=
  (!r.isFuture || f.includeFuture) && (f.includeUnsupported || r.isSupported f.policy)

/-- The names of the releases that are looked at. -/
def names (f : Filters) (releases : List Release) : List String :=
  (releases.filter f.admits).map Release.name

end Filters

namespace Matrix

/-- The candidates among the releases that are looked at. -/
def candidates (f : Filters) (releases : List Release) : List Candidate :=
  Candidate.ofNames (f.names releases)

/-- The candidates that the requirement admits. -/
def matching (r : Requirement) (f : Filters) (releases : List Release) : List Candidate :=
  (candidates f releases).filter fun c => r.admits c.version

/-- **The matrix**: every release name that satisfies the constraint, in ascending order. -/
def build (constraint : String) (releases : List Release) (f : Filters) :
    Except NoVersions (List String) :=
  match matching (Requirement.ofText constraint) f releases with
  | [] => .error .noValidVersions
  | kept => .ok ((Candidate.sort kept).map Candidate.name)

end Matrix
end ReleaseMatrix
