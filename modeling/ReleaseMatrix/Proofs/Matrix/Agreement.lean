/-
  Agreement — the matrix and the helpers on lists of names come to the same.

  The matrix reads each name once and keeps its version through filter and sort.  The helpers give
  out names between the stages, so each of them reads the versions anew, and each of them passes
  over names without one:

      names       v8.1   nightly   7.4   8.0
      selected    v8.1             8.0             >=8
      sorted      7.4    8.0       v8.1
      both, in either order        8.0   v8.1      the matrix

  1. **Stages** — `Candidate.ofNames_selection` and `Candidate.ofNames_sort`, what a stage gives out
     is read back as the candidates that it kept.
  2. **The matrix** — `Matrix.listed_eq_sort`; `Matrix.build_eq_listed`, what is listed decides the
     matrix; and `Matrix.agrees_with_helpers`.
-/
import ReleaseMatrix.Proofs.Matrix.Content

namespace ReleaseMatrix

/-! ## Stages -/

namespace Candidate

/-- Selected names are read as the candidates that the requirement admits. -/
theorem ofNames_selection (r : Requirement) (names : List String) :
    ofNames (r.selection names) = (ofNames names).filter fun c => r.admits c.version := by
  rw [← Matrix.names_admitted]
  exact ofNames_map_name fun c hc => genuine_of_mem_ofNames (List.mem_filter.mp hc).1

/-- Sorted names are read as the sorted candidates. -/
theorem ofNames_sort (names : List String) : ofNames (Name.sort names) = sort (ofNames names) :=
  ofNames_map_name fun _ hc => genuine_of_mem_ofNames (mem_sort.mp hc)

end Candidate

/-! ## The matrix -/

namespace Matrix

/-- The names that a matrix lists; none if it fails. -/
def listed (constraint : String) (releases : List Release) (f : Filters) : List String :=
  match build constraint releases f with
  | .ok names => names
  | .error _ => []

/-- What is listed are the sorted names of the candidates that match: if none does, no name. -/
theorem listed_eq_sort (constraint : String) (releases : List Release) (f : Filters) :
    listed constraint releases f =
      (Candidate.sort (matching (Requirement.ofText constraint) f releases)).map
        Candidate.name := by
  unfold listed build
  cases matching (Requirement.ofText constraint) f releases with
  | nil => simp [Candidate.sort]
  | cons => rfl

/-- A matrix fails if there is nothing to list, and is what it lists otherwise. -/
theorem build_eq_listed (constraint : String) (releases : List Release) (f : Filters) :
    build constraint releases f =
      if listed constraint releases f = [] then .error .noValidVersions
      else .ok (listed constraint releases f) := by
  have hlisted : listed constraint releases f = [] ↔
      matching (Requirement.ofText constraint) f releases = [] := by
    rw [listed_eq_sort, List.map_eq_nil_iff, Candidate.sort_eq_nil_iff]
  unfold build
  split
  case h_1 hnone => rw [if_pos (hlisted.mpr hnone)]
  case h_2 hsome => rw [if_neg (hsome ∘ hlisted.mp), listed_eq_sort]

/-- The candidates that match, once they are sorted, are the matrix. -/
theorem build_of_sorts {constraint : String} {releases : List Release} {f : Filters} {c : Candidate}
    {cs : List Candidate}
    (h : Candidate.Sorts (matching (Requirement.ofText constraint) f releases) (c :: cs)) :
    build constraint releases f = .ok ((c :: cs).map Candidate.name) := by
  have hlisted : listed constraint releases f = (c :: cs).map Candidate.name := by
    rw [listed_eq_sort, (Candidate.sorts_sort _).unique h]
  rw [build_eq_listed, hlisted]
  rfl

/-- What is listed decides the matrix. -/
theorem build_congr {constraint other : String} {releases others : List Release} {f g : Filters}
    (h : listed constraint releases f = listed other others g) :
    build constraint releases f = build other others g := by
  rw [build_eq_listed, build_eq_listed, h]

/-- **The matrix agrees with the helpers**, in either order of theirs: it lists the names that the
filters let through, first selected by the constraint and then sorted, or first sorted and then
selected. -/
theorem agrees_with_helpers (constraint : String) (releases : List Release) (f : Filters) :
    listed constraint releases f =
        Name.sort ((Requirement.ofText constraint).selection (f.names releases)) ∧
      listed constraint releases f =
        (Requirement.ofText constraint).selection (Name.sort (f.names releases)) := by
  constructor
  · rw [listed_eq_sort, Name.sort, Candidate.ofNames_selection]
    rfl
  · rw [listed_eq_sort, matching, candidates, Candidate.sort_filter, ← Candidate.ofNames_sort,
      names_admitted]

end Matrix
end ReleaseMatrix
