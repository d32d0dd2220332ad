/-
  Narrowing — a matrix is a catalog again, and a second constraint narrows it down.

  The names of a matrix, each a release without flags, pass the default filters, are read as the
  versions that they were sorted by, and are in order already, ties included.  So resolving a
  constraint over them filters the matrix and does nothing else:

      catalog           8.3   7.4   8.1   8.0   v8.1
      >=8               8.0   8.1   v8.1   8.3
      <8.3 over that    8.0   8.1   v8.1                   and  >=8 <8.3  over the catalog

  Constraints that are parts of a conjunction may thus be resolved at once or one after the other.
  Any constraint whatever leaves a matrix of its own as it is.

  1. **The second stage** — `candidates_listed` and `listed_again`.
  2. **Both stages** — `matching_append`, and `resolves_in_stages`.
-/
import ReleaseMatrix.Proofs.Matrix.Agreement
import ReleaseMatrix.Proofs.Requirement.Conjunction

namespace ReleaseMatrix

/-- The default filters look at every release without flags. -/
theorem Filters.names_ofName (names : List String) :
    default.names (names.map Release.ofName) = names := by
  have hadmits : ∀ release ∈ names.map Release.ofName, default.admits release = true := by
    intro release hrelease
    obtain ⟨name, -, rfl⟩ := List.mem_map.mp hrelease
    rfl
  rw [Filters.names, List.filter_eq_self.mpr hadmits, List.map_map]
  exact List.map_id names

namespace Matrix

/-! ## The second stage -/

section

variable (first second : String) (releases : List Release) (f : Filters)

/-- The names of a matrix are read as what it was made of, in its order. -/
theorem candidates_listed :
    candidates .default ((listed first releases f).map Release.ofName) =
      Candidate.sort (matching (Requirement.ofText first) f releases) := by
  rw [candidates, Filters.names_ofName, listed_eq_sort]
  exact Candidate.ofNames_map_name fun c hc =>
    genuine_of_mem_matching (Candidate.mem_sort.mp hc)

/-- **A second stage only filters**: what it leaves was in order before. -/
theorem listed_again :
    listed second ((listed first releases f).map Release.ofName) .default =
      (Candidate.sort ((matching (Requirement.ofText first) f releases).filter fun c =>
        (Requirement.ofText second).admits c.version)).map Candidate.name := by
  rw [listed_eq_sort, matching, candidates_listed, ← Candidate.sort_filter,
    Candidate.sort_eq_self (Candidate.sorts_sort _).ascending]

end

/-! ## Both stages -/

/-- A conjunction matches what is left of the one part by the other. -/
theorem matching_append {a gap b : String} (ha : Requirement.IsPart a)
    (hgap : Requirement.IsGap gap) (hb : Requirement.IsPart b) (releases : List Release)
    (f : Filters) :
    matching (Requirement.ofText (a ++ gap ++ b)) f releases =
      (matching (Requirement.ofText a) f releases).filter fun c =>
        (Requirement.ofText b).admits c.version := by
  rw [matching, matching, List.filter_filter]
  refine List.filter_congr fun c _ => ?_
  rw [Bool.eq_iff_iff, (ha.means_append hgap hb).2, Bool.and_eq_true]
  exact and_comm

/-- **Resolving in two stages is resolving once.**  For two parts of a conjunction, the matrix of
both comes to the same as the matrix of the second one over the names that the first one lists, each
taken for a release without flags; it fails if that fails, and if the first one fails.  A matrix
resolved once more by its own constraint, whatever that is, stays as it is. -/
theorem resolves_in_stages :
    (∀ {a b : String}, Requirement.IsPart a → Requirement.IsPart b → ∀ releases f,
      build (a ++ " " ++ b) releases f =
          build b ((listed a releases f).map Release.ofName) .default ∧
        (build a releases f = .error .noValidVersions →
          build (a ++ " " ++ b) releases f = .error .noValidVersions)) ∧
    ∀ constraint releases f names, build constraint releases f = .ok names →
      build constraint (names.map Release.ofName) .default = .ok names := by
  constructor
  · intro a b ha hb releases f
    have hstages : build (a ++ " " ++ b) releases f =
        build b ((listed a releases f).map Release.ofName) .default := by
      refine build_congr ?_
      rw [listed_again, listed_eq_sort, matching_append ha Requirement.isGap_blank hb]
    refine ⟨hstages, fun hfails => ?_⟩
    rw [hstages, listed, hfails]
    rfl
  · intro constraint releases f names hbuild
    have hnames : listed constraint releases f = names := by rw [listed, hbuild]
    have hagain : listed constraint (names.map Release.ofName) .default =
        listed constraint releases f := by
      rw [← hnames, listed_again, listed_eq_sort]
      -- the constraint admits whatever it let through before
      have hall : ∀ c ∈ matching (Requirement.ofText constraint) f releases,
          (Requirement.ofText constraint).admits c.version = true := fun c hc =>
        (List.mem_filter.mp hc).2
      rw [List.filter_eq_self.mpr hall]
    rw [build_congr hagain, hbuild]

/-- A future release stays in, as the second stage does not know that it is one. -/
theorem resolves_in_stages_future :
    let releases : List Release := [⟨"8.3", true, false, true⟩, ⟨"8.1", false, true, true⟩,
      ⟨"8.0", false, true, false⟩, ⟨"8.2", true, false, true⟩, ⟨"v8.1", false, false, true⟩]
    let f : Filters := ⟨true, false, .secureOnly⟩
    Requirement.IsPart ">=8" ∧ Requirement.IsPart "< 8.3" ∧
      build ">=8" releases f = .ok ["8.1", "v8.1", "8.2", "8.3"] ∧
      build (">=8" ++ " " ++ "< 8.3") releases f = .ok ["8.1", "v8.1", "8.2"] ∧
      build "< 8.3" (["8.1", "v8.1", "8.2", "8.3"].map Release.ofName) .default =
        .ok ["8.1", "v8.1", "8.2"] ∧
      build ">=8" (["8.1", "v8.1", "8.2", "8.3"].map Release.ofName) .default =
        .ok ["8.1", "v8.1", "8.2", "8.3"] := by
  intro releases f
  have hfirst : Requirement.IsPart ">=8" := Requirement.isPart_iff.mpr (by decide)
  have hsecond : Requirement.IsPart "< 8.3" := Requirement.isPart_iff.mpr (by decide)
  have hsorts : Candidate.Sorts (matching (Requirement.ofText ">=8") f releases)
      [⟨"8.1", ⟨8, 1, 0⟩⟩, ⟨"v8.1", ⟨8, 1, 0⟩⟩, ⟨"8.2", ⟨8, 2, 0⟩⟩, ⟨"8.3", ⟨8, 3, 0⟩⟩] := by
    decide +kernel
  have hnarrowed : Candidate.Sorts
      (matching (Requirement.ofText (">=8" ++ " " ++ "< 8.3")) f releases)
      [⟨"8.1", ⟨8, 1, 0⟩⟩, ⟨"v8.1", ⟨8, 1, 0⟩⟩, ⟨"8.2", ⟨8, 2, 0⟩⟩] := by
    decide +kernel
  have hbuild : build ">=8" releases f = .ok ["8.1", "v8.1", "8.2", "8.3"] :=
    build_of_sorts hsorts
  have hboth : build (">=8" ++ " " ++ "< 8.3") releases f = .ok ["8.1", "v8.1", "8.2"] :=
    build_of_sorts hnarrowed
  have hlisted : listed ">=8" releases f = ["8.1", "v8.1", "8.2", "8.3"] := by
    rw [listed, hbuild]
  have hstages := (resolves_in_stages.1 hfirst hsecond releases f).1
  rw [hlisted, hboth] at hstages
  exact ⟨hfirst, hsecond, hbuild, hboth, hstages.symm, resolves_in_stages.2 _ _ _ _ hbuild⟩

end Matrix
end ReleaseMatrix
