/-
  The content of the matrix — the releases that are kept, under their names, in ascending order.

  A release is kept if the filters look at it and its name holds a version that the requirement
  admits.  The three stages of the matrix come to this:

      nothing is kept      the matrix fails
      releases are kept    the matrix lists their names, by ascending versions and, within one
                           version, in the order of the catalog

  1. **Stages** — `names_matching`, filtering names and versions one after the other keeps the same.
  2. **The matrix** — `build_lists_kept`.
-/
import ReleaseMatrix.Proofs.Candidate.Sorting
import ReleaseMatrix.Proofs.Requirement.Meaning
import ReleaseMatrix.Matrix

namespace ReleaseMatrix.Matrix

/-! ## What is kept -/

/-- The filters look at the release, and its name holds a version that the requirement admits. -/
def Keeps (r : Requirement) (f : Filters) (release : Release) : Prop :=
  f.admits release = true ∧ ∃ v, Version.extract? release.name = some v ∧ r.admits v = true

instance (r : Requirement) (f : Filters) : DecidablePred (Keeps r f) := fun _ =>
  decidable_of_iff _ (and_congr_right fun _ => Requirement.satisfiedBy_iff)

/-- The releases of a catalog that are kept, as they stand in it. -/
def kept (r : Requirement) (f : Filters) (releases : List Release) : List Release :=
  releases.filter fun release => Keeps r f release

/-! ## Stages -/

/-- The candidates that a requirement admits are the names that satisfy it. -/
theorem names_admitted (r : Requirement) (names : List String) :
    ((Candidate.ofNames names).filter fun c => r.admits c.version).map Candidate.name =
      r.selection names := by
  rw [Candidate.map_name_filter_ofNames, Requirement.selection]
  refine List.filter_congr fun name _ => ?_
  rw [Requirement.satisfiedBy]
  cases Version.extract? name <;> rfl

/-- **The stages keep what is kept**, name by name. -/
theorem names_matching (r : Requirement) (f : Filters) (releases : List Release) :
    (matching r f releases).map Candidate.name = (kept r f releases).map Release.name := by
  have hkept : kept r f releases =
      (releases.filter f.admits).filter (r.satisfiedBy ∘ Release.name) := by
    rw [kept, List.filter_filter]
    refine List.filter_congr fun release _ => ?_
    rw [Bool.eq_iff_iff, decide_eq_true_iff, Keeps, ← Requirement.satisfiedBy_iff,
      Bool.and_eq_true, and_comm]
    rfl
  rw [matching, candidates, names_admitted, hkept, Requirement.selection, Filters.names,
    List.filter_map]

theorem genuine_of_mem_matching {r : Requirement} {f : Filters} {releases : List Release}
    {c : Candidate} (h : c ∈ matching r f releases) : c.Genuine :=
  Candidate.genuine_of_mem_ofNames (List.mem_filter.mp h).1

/-! ## The matrix -/

/-- The names of these releases, with the versions that they hold ascending; of the names that hold
one version, the order of the releases. -/
structure Lists (kept : List Release) (names : List String) : Prop where
  /-- Nothing is lost, doubled or spelled anew. -/
  perm : names.Perm (kept.map Release.name)
  /-- Versions ascend. -/
  ascending : names.Pairwise fun a b =>
    ∃ v w, Version.extract? a = some v ∧ Version.extract? b = some w ∧ v ≤ w
  /-- Names of equal versions keep the order of the releases. -/
  stable : ∀ v, names.filter (fun name => Version.extract? name = some v) =
    (kept.map Release.name).filter fun name => Version.extract? name = some v

/-- A sort of genuine candidates sorts their names. -/
theorem lists_of_sorts {kept : List Release} {cs sorted : List Candidate}
    (hgenuine : ∀ c ∈ cs, c.Genuine) (hnames : cs.map Candidate.name = kept.map Release.name)
    (h : Candidate.Sorts cs sorted) : Lists kept (sorted.map Candidate.name) := by
  have hsorted : ∀ c ∈ sorted, c.Genuine := fun c hc => hgenuine c (h.perm.mem_iff.mp hc)
  refine ⟨?_, Candidate.pairwise_map_name hsorted h.ascending, fun v => ?_⟩
  · rw [← hnames]
    exact h.perm.map Candidate.name
  · rw [Candidate.filter_map_name v hsorted, h.stable v, ← Candidate.filter_map_name v hgenuine,
      hnames]

/-- **The matrix lists what is kept**, and fails if nothing is.  It is the names of the releases
that the filters look at and the constraint admits: each as often as the catalog has it and as the
catalog spells it, from the lowest version to the highest, and those that hold one version in the
order of the catalog. -/
theorem build_lists_kept (constraint : String) (releases : List Release) (f : Filters) :
    (kept (Requirement.ofText constraint) f releases = [] ∧
      build constraint releases f = .error .noValidVersions) ∨
    (kept (Requirement.ofText constraint) f releases ≠ [] ∧
      ∃ names, build constraint releases f = .ok names ∧
        Lists (kept (Requirement.ofText constraint) f releases) names) := by
  have hnames := names_matching (Requirement.ofText constraint) f releases
  unfold build
  split
  case h_1 hnone =>
    rw [hnone, List.map_nil] at hnames
    exact .inl ⟨List.map_eq_nil_iff.mp hnames.symm, rfl⟩
  case h_2 hsome =>
    refine .inr ⟨fun hnone => hsome ?_, _, rfl, ?_⟩
    · rw [hnone, List.map_nil] at hnames
      exact List.map_eq_nil_iff.mp hnames
    · exact lists_of_sorts (fun c => genuine_of_mem_matching) hnames (Candidate.sorts_sort _)

end ReleaseMatrix.Matrix
