/-
  The ends of the matrix — what a run reports as its lowest and its highest version.

  The extremes of a list of names are found anew: the names are read as versions once more and
  sorted once more.  For a matrix this changes nothing, since each of its names holds the version
  that it was sorted by, and what is in order stays as it is, ties included:

      matrix     8.0   8.0.0   8.1.0   v8.1
      lowest     8.0                              the first of two that hold 8.0.0
      highest                          v8.1       the last of two that hold 8.1.0

  A matrix is never empty, so both ends exist, and a run that has come to its matrix does not fail
  any more until it writes its report.

  1. **The matrix** — `Matrix.sort_of_build`, `Matrix.extremes_of_build`.
  2. **Runs** — `Run.listing` is a run up to its matrix, `Run.ends_of_matrix` the rest of its report.
-/
import ReleaseMatrix.Proofs.Matrix.Content
import ReleaseMatrix.Run

namespace ReleaseMatrix

namespace Name

/-! ## Extremes of sorted names -/

theorem minimum_of_sort_eq_self {names : List String} {first : String}
    (hsort : sort names = names) (hfirst : names.head? = some first) :
    minimum names = .ok first := by
  rw [minimum, hsort, hfirst]

theorem maximum_of_sort_eq_self {names : List String} {last : String}
    (hsort : sort names = names) (hlast : names.getLast? = some last) :
    maximum names = .ok last := by
  rw [maximum, hsort, hlast]

end Name

namespace Matrix

/-! ## Extremes of the matrix -/

/-- A matrix that could be built is the sort of some candidates that the requirement admits. -/
theorem eq_of_build {constraint : String} {releases : List Release} {f : Filters}
    {names : List String} (h : build constraint releases f = .ok names) :
    matching (Requirement.ofText constraint) f releases ≠ [] ∧
      names = (Candidate.sort (matching (Requirement.ofText constraint) f releases)).map
        Candidate.name := by
  unfold build at h
  split at h
  case h_1 => cases h
  case h_2 hsome => exact ⟨hsome, (Except.ok.inj h).symm⟩

/-- **Sorting the matrix again changes nothing.** -/
theorem sort_of_build {constraint : String} {releases : List Release} {f : Filters}
    {names : List String} (h : build constraint releases f = .ok names) :
    Name.sort names = names := by
  obtain ⟨-, rfl⟩ := eq_of_build h
  exact Name.sort_map_name (fun c hc => genuine_of_mem_matching (Candidate.mem_sort.mp hc))
    (Candidate.sorts_sort _).ascending

/-- A matrix that is built has a name. -/
theorem ne_nil_of_build {constraint : String} {releases : List Release} {f : Filters}
    {names : List String} (h : build constraint releases f = .ok names) : names ≠ [] := by
  obtain ⟨hsome, rfl⟩ := eq_of_build h
  rw [Ne, List.map_eq_nil_iff, Candidate.sort_eq_nil_iff]
  exact hsome

/-- The extremes of a matrix are its two ends. -/
theorem extremes_of_build {constraint : String} {releases : List Release} {f : Filters}
    {names : List String} (h : build constraint releases f = .ok names) :
    ∃ first last, names.head? = some first ∧ names.getLast? = some last ∧
      Name.minimum names = .ok first ∧ Name.maximum names = .ok last := by
  have hne := ne_nil_of_build h
  have hfirst := List.head?_eq_some_head hne
  have hlast := List.getLast?_eq_some_getLast hne
  have hsort := sort_of_build h
  exact ⟨names.head hne, names.getLast hne, hfirst, hlast,
    Name.minimum_of_sort_eq_self hsort hfirst, Name.maximum_of_sort_eq_self hsort hlast⟩

end Matrix

namespace Run

/-! ## Runs -/

/-- A run up to its matrix: the requirement, and the matrix of it. -/
def listing (s : Surroundings) (c : CommandLine) : Stage (String × List String) := do
  let settings ← settings s.files c
  let text ← requirement s.files c
  let releases ← releases s.files s.service settings.catalog
  let names ← matrix text releases settings.filters
  return (text, names)

/-- What a run reports of its requirement and its matrix. -/
def ends (text : String) (names : List String) : Stage Report := do
  return ⟨text, names, ← extreme (Name.minimum names), ← extreme (Name.maximum names)⟩

/-- A report is the listing and its ends. -/
theorem report_eq_listing (s : Surroundings) (c : CommandLine) :
    report s c = listing s c >>= fun (text, names) => ends text names := by
  simp [report, listing, ends]

/-- A run that lists names has built them as a matrix. -/
theorem build_of_listing {s : Surroundings} {c : CommandLine} {text : String}
    {names : List String} (h : (listing s c).result = .ok (text, names)) :
    ∃ releases f, Matrix.build text releases f = .ok names := by
  obtain ⟨settings, -, h⟩ := Stage.result_bind_eq_ok_iff.mp h
  obtain ⟨given, -, h⟩ := Stage.result_bind_eq_ok_iff.mp h
  obtain ⟨releases, -, h⟩ := Stage.result_bind_eq_ok_iff.mp h
  obtain ⟨listed, hmatrix, h⟩ := Stage.result_bind_eq_ok_iff.mp h
  obtain ⟨rfl, rfl⟩ := Prod.mk.inj (Except.ok.inj h)
  refine ⟨releases, settings.filters, ?_⟩
  cases hbuild : Matrix.build given releases settings.filters with
  | error => simp [matrix, hbuild, Except.mapError] at hmatrix
  | ok => simpa [matrix, hbuild, Except.mapError] using hmatrix

/-- The ends of what was listed are found without fail. -/
theorem result_ends {text first last : String} {names : List String}
    (hfirst : Name.minimum names = .ok first) (hlast : Name.maximum names = .ok last) :
    (ends text names).result = .ok ⟨text, names, first, last⟩ := by
  rw [ends, hfirst, hlast]
  rfl

/-- **The extremes of a matrix are its two ends**, as the catalog spells them: the lowest version is
the first name and the highest the last one, also where several names hold that version.  So from
the listing on a run cannot fail before its report, and the report names the ends of the very matrix
that it prints; if there is no listing, the run fails for the same reason. -/
theorem ends_of_matrix :
    (∀ constraint releases f names, Matrix.build constraint releases f = .ok names →
      ∃ first last, names.head? = some first ∧ names.getLast? = some last ∧
        Name.minimum names = .ok first ∧ Name.maximum names = .ok last) ∧
    ∀ s c, match (listing s c).result with
      | .error e => (report s c).result = .error e
      | .ok (text, names) => ∃ first last, names.head? = some first ∧ names.getLast? = some last ∧
          (report s c).result = .ok ⟨text, names, first, last⟩ := by
  refine ⟨fun _ _ _ _ h => Matrix.extremes_of_build h, fun s c => ?_⟩
  rw [report_eq_listing, Stage.result_bind]
  cases hlisting : (listing s c).result with
  | error => rfl
  | ok listed =>
    obtain ⟨text, names⟩ := listed
    obtain ⟨releases, f, hbuild⟩ := build_of_listing hlisting
    obtain ⟨first, last, hfirst, hlast, hminimum, hmaximum⟩ := Matrix.extremes_of_build hbuild
    exact ⟨first, last, hfirst, hlast, result_ends hminimum hmaximum⟩

/-- Two names for 8.0.0 and two for 8.1.0: the first of all and the last of all are reported. -/
theorem ends_of_matrix_ties :
    let names := ["8.0", "8.0.0", "8.1.0", "v8.1"]
    let catalog := ["7.4", "8.0", "8.0.0", "nightly", "8.1.0", "v8.1"].map fun name =>
      (⟨name, false, false, false⟩ : Release)
    Matrix.build ">=8" catalog .default = .ok names ∧
      Name.minimum names = .ok "8.0" ∧ Name.maximum names = .ok "v8.1" := by
  intro names catalog
  have hmatching : Matrix.matching (Requirement.ofText ">=8") .default catalog =
      [⟨"8.0", ⟨8, 0, 0⟩⟩, ⟨"8.0.0", ⟨8, 0, 0⟩⟩, ⟨"8.1.0", ⟨8, 1, 0⟩⟩, ⟨"v8.1", ⟨8, 1, 0⟩⟩] := by
    decide +kernel
  have hbuild : Matrix.build ">=8" catalog .default = .ok names := by
    simp only [Matrix.build, hmatching]
    rw [Candidate.sort_eq_self (by decide)]
    rfl
  obtain ⟨first, last, hfirst, hlast, hminimum, hmaximum⟩ := ends_of_matrix.1 _ _ _ _ hbuild
  obtain rfl : "8.0" = first := Option.some.inj hfirst
  obtain rfl : "v8.1" = last := Option.some.inj hlast
  exact ⟨hbuild, hminimum, hmaximum⟩

end Run
end ReleaseMatrix
