/-
  Reordering — the order of the catalog decides among names of one version, and nothing else.

  Filters and requirement look at one release at a time, so a reordered catalog gives the same
  candidates in another order.  The sort brings their versions back into the one order that they
  have, and leaves to the catalog which of several names of one version comes first:

      catalog      8.1   7.4   v8.1         matrix     7.4   8.1    v8.1
      reordered    v8.1   8.1   7.4         matrix     7.4   v8.1   8.1

  Either both matrices fail, or both list the same names with the same versions in a row.  They are
  equal for every reordering just in case no two names that are listed share a version, as any of
  several names of one version can be made the first of them.

  1. **The matrix** — `matching_perm`, and `build_perm`, what a reordering leaves.
  2. **Ties** — `exists_first`, and `order_decides_ties`.
-/
import ReleaseMatrix.Proofs.Matrix.Agreement

namespace ReleaseMatrix.Matrix

/-! ## The matrix of a reordered catalog -/

section

variable {releases shuffled : List Release} (h : shuffled.Perm releases)
include h

/-- The stages before the sort keep a reordering a reordering. -/
theorem matching_perm (r : Requirement) (f : Filters) :
    (matching r f shuffled).Perm (matching r f releases) := by
  have hnames : (f.names shuffled).Perm (f.names releases) := (h.filter f.admits).map Release.name
  exact (hnames.filterMap Candidate.ofName?).filter _

theorem listed_perm (constraint : String) (f : Filters) :
    (listed constraint shuffled f).Perm (listed constraint releases f) := by
  rw [listed_eq_sort, listed_eq_sort]
  exact (Candidate.perm_sort_of_perm (matching_perm h _ f)).map Candidate.name

end

/-- What is listed holds the versions that it was sorted by. -/
theorem versions_listed (constraint : String) (releases : List Release) (f : Filters) :
    (listed constraint releases f).map Version.extract? =
      ((Candidate.sort (matching (Requirement.ofText constraint) f releases)).map
        Candidate.version).map some := by
  rw [listed_eq_sort, List.map_map, List.map_map]
  refine List.map_congr_left fun c hc => ?_
  exact genuine_of_mem_matching (Candidate.mem_sort.mp hc)

/-- **A reordered catalog has a matrix iff the other one has**, of the same names, and with the same
versions in a row. -/
theorem build_perm {releases shuffled : List Release} (h : shuffled.Perm releases)
    (constraint : String) (f : Filters) :
    (build constraint releases f = .error .noValidVersions ∧
        build constraint shuffled f = .error .noValidVersions) ∨
      ∃ names others, build constraint releases f = .ok names ∧
        build constraint shuffled f = .ok others ∧ others.Perm names ∧
        others.map Version.extract? = names.map Version.extract? := by
  have hperm := listed_perm h constraint f
  -- ties may come in another order, but their versions are the same
  have hversions : (listed constraint shuffled f).map Version.extract? =
      (listed constraint releases f).map Version.extract? := by
    rw [versions_listed, versions_listed,
      Candidate.versions_sort_of_perm (matching_perm h (Requirement.ofText constraint) f)]
  rw [build_eq_listed, build_eq_listed]
  by_cases hnone : listed constraint releases f = []
  · rw [hnone] at hperm
    exact .inl ⟨if_pos hnone, if_pos hperm.eq_nil⟩
  · have hsome : listed constraint shuffled f ≠ [] := by
      intro hnil
      rw [hnil] at hperm
      exact hnone hperm.nil_eq.symm
    exact .inr ⟨_, _, if_neg hnone, if_neg hsome, hperm, hversions⟩

/-! ## Ties -/

/-- The names of one version stand in the matrix as the catalog has them. -/
theorem filter_listed (constraint : String) (releases : List Release) (f : Filters) (v : Version) :
    (listed constraint releases f).filter (fun name => Version.extract? name = some v) =
      ((kept (Requirement.ofText constraint) f releases).map Release.name).filter fun name =>
        Version.extract? name = some v := by
  rw [listed_eq_sort]
  exact (lists_of_sorts (fun _ => genuine_of_mem_matching) (names_matching _ f releases)
    (Candidate.sorts_sort _)).stable v

/-- **Any release that is kept can come first**: some reordering lists its name before all others of
its version. -/
theorem exists_first {constraint : String} {releases : List Release} {f : Filters}
    {release : Release} (hkept : release ∈ kept (Requirement.ofText constraint) f releases)
    {v : Version} (hv : Version.extract? release.name = some v) :
    ∃ shuffled : List Release, shuffled.Perm releases ∧
      ((listed constraint shuffled f).filter fun name => Version.extract? name = some v).head? =
        some release.name := by
  obtain ⟨hmem, hkeeps⟩ := List.mem_filter.mp hkept
  refine ⟨release :: releases.erase release, (List.perm_cons_erase hmem).symm, ?_⟩
  rw [filter_listed, kept, List.filter_cons, if_pos hkeeps, List.map_cons, List.filter_cons,
    if_pos (decide_eq_true hv), List.head?_cons]

/-- **The order of the catalog decides ties only, and all of them.**  With its releases in another
order, the matrix fails if it failed before; else it lists the same names, and the versions that
they hold are the same in a row.  The matrix is the same for every order iff releases that are kept
and hold one version have one name, so in particular if no two of them hold one version. -/
theorem order_decides_ties (constraint : String) (releases : List Release) (f : Filters) :
    (∀ shuffled : List Release, shuffled.Perm releases →
      (build constraint releases f = .error .noValidVersions ∧
          build constraint shuffled f = .error .noValidVersions) ∨
        ∃ names others, build constraint releases f = .ok names ∧
          build constraint shuffled f = .ok others ∧ others.Perm names ∧
          others.map Version.extract? = names.map Version.extract?) ∧
    ((∀ shuffled : List Release, shuffled.Perm releases →
        build constraint shuffled f = build constraint releases f) ↔
      Name.Untied ((kept (Requirement.ofText constraint) f releases).map Release.name)) := by
  refine ⟨fun shuffled hperm => build_perm hperm constraint f, ?_, ?_⟩
  · -- of two names for one version, either can be made the first, and every order lists the same
    intro hsame a ha b hb v hav hbv
    have hlisted {shuffled : List Release} (hperm : shuffled.Perm releases) :
        listed constraint shuffled f = listed constraint releases f := by
      rw [listed, hsame shuffled hperm, listed]
    obtain ⟨first, hfirst, rfl⟩ := List.mem_map.mp ha
    obtain ⟨second, hsecond, rfl⟩ := List.mem_map.mp hb
    obtain ⟨shuffled, hperm, hhead⟩ := exists_first hfirst hav
    obtain ⟨others, hothers, hnext⟩ := exists_first hsecond hbv
    rw [hlisted hperm] at hhead
    rw [hlisted hothers, hhead] at hnext
    exact Option.some.inj hnext
  · intro huntied shuffled hperm
    have hmatching := matching_perm hperm (Requirement.ofText constraint) f
    rw [← names_matching] at huntied
    have hversions := huntied.eq_of_version_eq (fun _ => genuine_of_mem_matching)
      fun c hc => List.mem_map_of_mem hc
    refine build_congr ?_
    rw [listed_eq_sort, listed_eq_sort, Candidate.sort_eq_of_perm hmatching.symm hversions]

/-- Of two names for 8.1.0, either comes first where the catalog has it first. -/
theorem order_decides_ties_swapped :
    let releases := ["8.1.0", "7.4", "8.1"].map Release.ofName
    let shuffled := ["8.1", "8.1.0", "7.4"].map Release.ofName
    shuffled.Perm releases ∧
      build ">=7" releases .default = .ok ["7.4", "8.1.0", "8.1"] ∧
      build ">=7" shuffled .default = .ok ["7.4", "8.1", "8.1.0"] ∧
      ["7.4", "8.1", "8.1.0"].map Version.extract? = ["7.4", "8.1.0", "8.1"].map Version.extract? ∧
      ¬ Name.Untied ((kept (Requirement.ofText ">=7") .default releases).map Release.name) := by
  intro releases shuffled
  have hperm : shuffled.Perm releases := by decide
  have hsorts : Candidate.Sorts (matching (Requirement.ofText ">=7") .default releases)
      [⟨"7.4", ⟨7, 4, 0⟩⟩, ⟨"8.1.0", ⟨8, 1, 0⟩⟩, ⟨"8.1", ⟨8, 1, 0⟩⟩] := by decide +kernel
  have hothers : Candidate.Sorts (matching (Requirement.ofText ">=7") .default shuffled)
      [⟨"7.4", ⟨7, 4, 0⟩⟩, ⟨"8.1", ⟨8, 1, 0⟩⟩, ⟨"8.1.0", ⟨8, 1, 0⟩⟩] := by decide +kernel
  have hbuild : build ">=7" releases .default = .ok ["7.4", "8.1.0", "8.1"] :=
    build_of_sorts hsorts
  have hother : build ">=7" shuffled .default = .ok ["7.4", "8.1", "8.1.0"] :=
    build_of_sorts hothers
  obtain ⟨hreordered, hsame⟩ := order_decides_ties ">=7" releases .default
  refine ⟨hperm, hbuild, hother, ?_, fun huntied => ?_⟩
  · rcases hreordered shuffled hperm with ⟨hfails, -⟩ | ⟨names, others, hnames, hshuffled, -, hversions⟩
    · rw [hbuild] at hfails
      cases hfails
    · obtain rfl := Except.ok.inj (hbuild.symm.trans hnames)
      obtain rfl := Except.ok.inj (hother.symm.trans hshuffled)
      exact hversions
  · have heq := hsame.mpr huntied shuffled hperm
    rw [hbuild, hother] at heq
    exact absurd heq (by decide)

end ReleaseMatrix.Matrix
