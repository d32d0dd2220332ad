/-
  Candidates — names together with the versions that they hold.

  Names are kept as they were written; only their versions are compared.  Both sorts are stable, so
  names that hold equal versions stay in their order, ascending or descending.

  1. **Candidates** — `Candidate.ofName?`, `Candidate.ofNames` drops names without a version.
  2. **Sorting** — `Candidate.sort`, `Name.sort`, `Name.sortDescending`.
  3. **Extremes** — `Name.minimum`, `Name.maximum`: the ends of the ascending sort.
-/
import ReleaseMatrix.Version.Extraction

namespace ReleaseMatrix

/-- A name and the version that it holds. -/
structure Candidate where
  name : String
  version : Version
deriving DecidableEq, Repr

namespace Candidate

/-- The candidate of a name, if it holds a version. -/
def ofName? (name : String) : Option Candidate := (Version.extract? name).map (⟨name, ·⟩)

/-- The candidates of a list of names; those without a version are passed over. -/
def ofNames (names : List String) : List Candidate := names.filterMap ofName?

/-- The name and its version in parentheses. -/
def text (c : Candidate) : String := c.name ++ " (" ++ c.version.text ++ ")"

/-! ## Sorting -/

/-- Ascending order of versions; equal ones stay as they are. -/
def sort (cs : List Candidate) : List Candidate :=
  cs.mergeSort fun a b => (a.version.compare b.version).isLE

/-- Descending order of versions; equal ones stay as they are. -/
def sortDescending (cs : List Candidate) : List Candidate :=
  cs.mergeSort fun a b => (b.version.compare a.version).isLE

end Candidate

/-! ## Lists of names -/

/-- No name held a version, or none was left that did. -/
inductive NoVersions where
  | noValidVersions
deriving DecidableEq, Repr

/-- What is reported for it. -/
def NoVersions.message : NoVersions → String
  | noValidVersions => "no valid versions"

namespace Name

/-- The names that hold versions, in ascending order of these. -/
def sort (names : List String) : List String :=
  (Candidate.sort (Candidate.ofNames names)).map Candidate.name

/-- The names that hold versions, in descending order of these. -/
def sortDescending (names : List String) : List String :=
  (Candidate.sortDescending (Candidate.ofNames names)).map Candidate.name

/-! ## Extremes -/

/-- A name that holds the lowest version: of several, the first. -/
def minimum (names : List String) : Except NoVersions String :=
  match (sort names).head? with
  | some name => .ok name
  | none => .error .noValidVersions

/-- A name that holds the highest version: of several, the last. -/
def maximum (names : List String) : Except NoVersions String :=
  match (sort names).getLast? with
  | some name => .ok name
  | none => .error .noValidVersions

end Name
end ReleaseMatrix
