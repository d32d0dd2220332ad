/-
  Arrangements — names in ascending or descending order, and the names at the ends.

  Descending order is a sort of its own and no ascending order read backwards: within one version
  both keep the names as they came.  What turns the one into the other is to read backwards what
  goes in as well as what comes out:

      names               8.1   7.4   nightly   7.4.0
      ascending           7.4   7.4.0   8.1
      descending          8.1   7.4   7.4.0                not  8.1   7.4.0   7.4

      names, backwards    7.4.0   nightly   7.4   8.1
      ascending           7.4.0   7.4   8.1                backwards  8.1   7.4   7.4.0

  So whatever holds of an ascending arrangement holds of a descending one with the order and the
  names turned round.  The last of the names of the highest version is the first one, once the names
  are read from their end.

  1. **Arrangements** — `Name.Arranges`, in any order of versions, and `Arranges.reverse`.
  2. **Descending** — `Candidate.sortDescending_eq`, by uniqueness of stable sorts, and
     `Name.mirrored_descent`.
  3. **Ends** — `Arranges.leads`, and `Name.extremes_of_names`.
-/
import ReleaseMatrix.Proofs.Candidate.Sorting

namespace ReleaseMatrix

/-! ## Arrangements -/

namespace Name

variable {related : Version → Version → Prop} {names arranged : List String}

/-- Those of the names that hold versions, in an order of these; names of one version stay as they
are. -/
structure Arranges (related : Version → Version → Prop) (names arranged : List String) : Prop where
  /-- Nothing is lost but names without a version, and nothing is doubled. -/
  perm : arranged.Perm (names.filter fun name => (Version.extract? name).isSome)
  /-- The versions are in order. -/
  ordered : arranged.Pairwise fun a b =>
    ∃ v w, Version.extract? a = some v ∧ Version.extract? b = some w ∧ related v w
  /-- Names of equal versions keep their order. -/
  stable : ∀ v, arranged.filter (fun name => Version.extract? name = some v) =
    names.filter fun name => Version.extract? name = some v

/-- **The ascending sort arranges the names.** -/
theorem arranges_sort (names : List String) : Arranges (· ≤ ·) names (sort names) := by
  have hgenuine : ∀ c ∈ Candidate.ofNames names, c.Genuine := fun _ hc =>
    Candidate.genuine_of_mem_ofNames hc
  have hsorts := Candidate.sorts_sort (Candidate.ofNames names)
  have hsorted : ∀ c ∈ Candidate.sort (Candidate.ofNames names), c.Genuine := fun c hc =>
    hgenuine c (Candidate.mem_sort.mp hc)
  refine ⟨?_, Candidate.pairwise_map_name hsorted hsorts.ascending, fun v => ?_⟩
  · rw [← Candidate.map_name_ofNames]
    exact hsorts.perm.map Candidate.name
  · rw [sort, Candidate.filter_map_name v hsorted, hsorts.stable v,
      ← Candidate.filter_map_name v hgenuine, Candidate.map_name_ofNames, List.filter_filter]
    refine List.filter_congr fun name _ => ?_
    cases Version.extract? name <;> simp

/-- **An arrangement read backwards** arranges the names read backwards, in the opposite order. -/
theorem Arranges.reverse (h : Arranges related names arranged) :
    Arranges (fun v w => related w v) names.reverse arranged.reverse := by
  refine ⟨?_, ?_, fun v => ?_⟩
  · rw [List.filter_reverse]
    exact (List.reverse_perm _).trans (h.perm.trans (List.reverse_perm _).symm)
  · rw [List.pairwise_reverse]
    refine h.ordered.imp ?_
    rintro a b ⟨v, w, hv, hw, hrelated⟩
    exact ⟨w, v, hw, hv, hrelated⟩
  · rw [List.filter_reverse, List.filter_reverse, h.stable v]

theorem Arranges.mem_iff (h : Arranges related names arranged) {name : String} :
    name ∈ arranged ↔ name ∈ names ∧ ∃ v, Version.extract? name = some v := by
  rw [h.perm.mem_iff, List.mem_filter, Option.isSome_iff_exists]

end Name

/-! ## Descending order -/

/-- **Descending order mirrors ascending order**: turned round, the descending sort is a stable sort
of what is turned round, and of these there is only one. -/
theorem Candidate.sortDescending_eq (cs : List Candidate) :
    sortDescending cs = (sort cs.reverse).reverse := by
  have hdescending (a b c : Candidate) (hab : (b.version.compare a.version).isLE = true)
      (hbc : (c.version.compare b.version).isLE = true) :
      (c.version.compare a.version).isLE = true := compare_trans c b a hbc hab
  have htotal (a b : Candidate) := compare_total b a
  -- turned round, what is sorted is still sorted, and ties are in the order of the input
  have hmirrored : Sorts cs.reverse (sortDescending cs).reverse := by
    refine ⟨?_, ?_, fun v => ?_⟩
    · have hperm : (sortDescending cs).Perm cs := List.mergeSort_perm cs _
      exact (List.reverse_perm _).trans (hperm.trans (List.reverse_perm cs).symm)
    · rw [List.pairwise_reverse]
      exact List.pairwise_mergeSort hdescending htotal cs
    · rw [List.filter_reverse, List.filter_reverse, sortDescending]
      refine congrArg List.reverse (filter_mergeSort hdescending htotal (fun a b ha hb => ?_) cs)
      have heq : b.version = a.version := (of_decide_eq_true hb).trans (of_decide_eq_true ha).symm
      exact le_of_eq heq
  have heq : sort cs.reverse = (sortDescending cs).reverse :=
    (sorts_sort cs.reverse).unique hmirrored
  rw [heq, List.reverse_reverse]

namespace Name

theorem sortDescending_eq (names : List String) :
    sortDescending names = (sort names.reverse).reverse := by
  rw [sortDescending, sort, Candidate.sortDescending_eq, List.map_reverse, Candidate.ofNames,
    Candidate.ofNames, List.filterMap_reverse]

/-- Without ties the order of the names decides nothing. -/
theorem sort_eq_of_untied {names others : List String} (h : names.Perm others)
    (huntied : Untied names) : sort names = sort others := by
  have hperm : (Candidate.ofNames names).Perm (Candidate.ofNames others) :=
    h.filterMap Candidate.ofName?
  have hgenuine : ∀ c ∈ Candidate.ofNames names, c.Genuine := fun _ hc =>
    Candidate.genuine_of_mem_ofNames hc
  have hnames : ∀ c ∈ Candidate.ofNames names, c.name ∈ names := by
    intro c hc
    have hname : c.name ∈ (Candidate.ofNames names).map Candidate.name :=
      List.mem_map_of_mem hc
    rw [Candidate.map_name_ofNames] at hname
    exact List.mem_of_mem_filter hname
  rw [sort, sort, Candidate.sort_eq_of_perm hperm (huntied.eq_of_version_eq hgenuine hnames)]

/-- **Descending order is ascending order in a mirror**: the descending arrangement of some names is
the ascending one of the names read backwards, itself read backwards.  So both lose only names
without a version, and both keep names of one version in their order.  If names that hold one version
are always the same name, the one arrangement is the other one read backwards. -/
theorem mirrored_descent (names : List String) :
    sortDescending names = (sort names.reverse).reverse ∧
      Arranges (· ≤ ·) names (sort names) ∧ Arranges (· ≥ ·) names (sortDescending names) ∧
      (Untied names → sortDescending names = (sort names).reverse) := by
  refine ⟨sortDescending_eq names, arranges_sort names, ?_, fun huntied => ?_⟩
  · have hmirrored := (arranges_sort names.reverse).reverse
    rwa [List.reverse_reverse, ← sortDescending_eq] at hmirrored
  · rw [sortDescending_eq, sort_eq_of_untied (List.reverse_perm names).symm huntied]

/-- A name that comes twice is no tie, and two names for 7.4.0 are. -/
theorem mirrored_descent_ties :
    Untied ["7.4", "8.1", "7.4"] ∧
      sortDescending ["7.4", "8.1", "7.4"] = (sort ["7.4", "8.1", "7.4"]).reverse ∧
      sortDescending ["8.1", "7.4", "nightly", "7.4.0"] = ["8.1", "7.4", "7.4.0"] ∧
      (sort ["8.1", "7.4", "nightly", "7.4.0"]).reverse = ["8.1", "7.4.0", "7.4"] := by
  have huntied : Untied ["7.4", "8.1", "7.4"] := by
    have hheld : Version.extract? "7.4" = some ⟨7, 4, 0⟩ ∧
        Version.extract? "8.1" = some ⟨8, 1, 0⟩ := by decide +kernel
    simp [Untied, hheld]
  have hascending : Candidate.Sorts (Candidate.ofNames ["8.1", "7.4", "nightly", "7.4.0"])
      [⟨"7.4", ⟨7, 4, 0⟩⟩, ⟨"7.4.0", ⟨7, 4, 0⟩⟩, ⟨"8.1", ⟨8, 1, 0⟩⟩] := by decide +kernel
  have hmirrored : Candidate.Sorts (Candidate.ofNames ["7.4.0", "nightly", "7.4", "8.1"])
      [⟨"7.4.0", ⟨7, 4, 0⟩⟩, ⟨"7.4", ⟨7, 4, 0⟩⟩, ⟨"8.1", ⟨8, 1, 0⟩⟩] := by decide +kernel
  refine ⟨huntied, (mirrored_descent _).2.2.2 huntied, ?_, ?_⟩
  · rw [(mirrored_descent _).1]
    exact congrArg List.reverse (sort_of_sorts hmirrored)
  · rw [sort_of_sorts hascending]
    rfl

/-! ## Ends -/

/-- The name is the first of those that hold the version `v`, and `v` is so related to every version
that the names hold. -/
structure Leads (related : Version → Version → Prop) (names : List String) (name : String)
    (v : Version) : Prop where
  /-- It stands before all the others of its version. -/
  first : (names.filter fun other => Version.extract? other = some v).head? = some name
  /-- No version comes before its own. -/
  foremost : ∀ other ∈ names, ∀ w, Version.extract? other = some w → related v w

variable {name other : String} {v w : Version}

theorem Leads.mem (h : Leads related names name v) : name ∈ names :=
  List.mem_of_mem_filter (List.mem_of_head? h.first)

theorem Leads.holds (h : Leads related names name v) : Version.extract? name = some v :=
  of_decide_eq_true (List.mem_filter.mp (List.mem_of_head? h.first)).2

/-- **Only one name leads**, if two versions cannot both come before the other. -/
theorem Leads.unique (hantisymm : ∀ v w, related v w → related w v → v = w)
    (hname : Leads related names name v) (hother : Leads related names other w) : name = other := by
  have hvw : related v w := hname.foremost other hother.mem w hother.holds
  have hwv : related w v := hother.foremost name hname.mem v hname.holds
  obtain rfl : v = w := hantisymm v w hvw hwv
  exact Option.some.inj (hname.first.symm.trans hother.first)

/-- What an arrangement begins with leads the names. -/
theorem Arranges.leads (hrefl : ∀ v, related v v) (h : Arranges related names arranged)
    (hhead : arranged.head? = some name) : ∃ v, Leads related names name v := by
  obtain ⟨rest, rfl⟩ := List.head?_eq_some_iff.mp hhead
  obtain ⟨-, v, hv⟩ := h.mem_iff.mp List.mem_cons_self
  refine ⟨v, ?_, ?_⟩
  · -- the names of its version are the same here and there, and it is the first of them here
    rw [← h.stable v, List.filter_cons, if_pos (decide_eq_true hv)]
    rfl
  · intro other hmem w hw
    rcases List.mem_cons.mp (h.mem_iff.mpr ⟨hmem, w, hw⟩) with rfl | hrest
    · obtain rfl : v = w := Option.some.inj (hv.symm.trans hw)
      exact hrefl v
    · obtain ⟨v', w', hv', hw', hrelated⟩ := List.rel_of_pairwise_cons h.ordered hrest
      obtain rfl : v = v' := Option.some.inj (hv.symm.trans hv')
      obtain rfl : w = w' := Option.some.inj (hw.symm.trans hw')
      exact hrelated

/-- **An arrangement begins with the one name that leads.** -/
theorem Arranges.head?_eq_some_iff (hrefl : ∀ v, related v v)
    (hantisymm : ∀ v w, related v w → related w v → v = w) (h : Arranges related names arranged) :
    arranged.head? = some name ↔ ∃ v, Leads related names name v := by
  constructor
  · exact h.leads hrefl
  · rintro ⟨v, hleads⟩
    have hmem : name ∈ arranged := h.mem_iff.mpr ⟨hleads.mem, v, hleads.holds⟩
    have hhead := List.head?_eq_some_head (List.ne_nil_of_mem hmem)
    obtain ⟨w, hother⟩ := h.leads hrefl hhead
    rw [hhead, hother.unique hantisymm hleads]

/-- Nothing is arranged only of names that hold no version. -/
theorem sort_eq_nil_iff : sort names = [] ↔ ∀ name ∈ names, Version.extract? name = none := by
  have harranges := arranges_sort names
  rw [List.eq_nil_iff_forall_not_mem]
  constructor
  · intro hnone name hmem
    rw [Option.eq_none_iff_forall_ne_some]
    intro v hv
    exact hnone name (harranges.mem_iff.mpr ⟨hmem, v, hv⟩)
  · intro hall name hmem
    obtain ⟨hmem, v, hv⟩ := harranges.mem_iff.mp hmem
    rw [hall name hmem] at hv
    cases hv

theorem minimum_eq_ok_iff : minimum names = .ok name ↔ (sort names).head? = some name := by
  unfold minimum
  cases (sort names).head? <;> simp

theorem maximum_eq_ok_iff : maximum names = .ok name ↔ (sort names).getLast? = some name := by
  unfold maximum
  cases (sort names).getLast? <;> simp

theorem minimum_eq_error_iff : minimum names = .error .noValidVersions ↔ sort names = [] := by
  unfold minimum
  cases sort names <;> simp

theorem maximum_eq_error_iff : maximum names = .error .noValidVersions ↔ sort names = [] := by
  unfold maximum
  cases h : (sort names).getLast? with
  | none => simpa using h
  | some => simp [List.ne_nil_of_mem (List.mem_of_getLast? h)]

/-- **The extremes of some names** are missing if none of them holds a version, and only then.
Else the minimum is the first of those that hold the lowest version; the maximum is the last of those
that hold the highest one, that is, the first of them from the end.  Either is one of the names as it
is spelled, and the version of the minimum is at most that of the maximum. -/
theorem extremes_of_names (names : List String) :
    (minimum names = .error .noValidVersions ↔
        ∀ name ∈ names, Version.extract? name = none) ∧
      (maximum names = .error .noValidVersions ↔
        ∀ name ∈ names, Version.extract? name = none) ∧
      (∀ low, minimum names = .ok low ↔ ∃ v, Leads (· ≤ ·) names low v) ∧
      (∀ high, maximum names = .ok high ↔ ∃ w, Leads (· ≥ ·) names.reverse high w) ∧
      ∀ low v high w, Leads (· ≤ ·) names low v → Leads (· ≥ ·) names.reverse high w →
        low ∈ names ∧ high ∈ names ∧ v ≤ w := by
  have hascending := arranges_sort names
  refine ⟨minimum_eq_error_iff.trans sort_eq_nil_iff, maximum_eq_error_iff.trans sort_eq_nil_iff,
    fun low => ?_, fun high => ?_, ?_⟩
  · rw [minimum_eq_ok_iff]
    exact hascending.head?_eq_some_iff le_refl fun _ _ => le_antisymm
  · rw [maximum_eq_ok_iff, ← List.head?_reverse]
    exact hascending.reverse.head?_eq_some_iff le_refl fun _ _ hvw hwv => le_antisymm hwv hvw
  · intro low v high w hlow hhigh
    have hmem : high ∈ names := List.mem_reverse.mp hhigh.mem
    exact ⟨hlow.mem, hmem, hlow.foremost high hmem w hhigh.holds⟩

/-- Of two names for 7.4.0 the first, and of two for 8.1.0 the last. -/
theorem extremes_of_names_ties :
    let names := ["nightly", "8.1", "7.4", "v7.4", "8.1.0", ""]
    minimum names = .ok "7.4" ∧ maximum names = .ok "8.1.0" ∧
      ∃ v w, Leads (· ≤ ·) names "7.4" v ∧ Leads (· ≥ ·) names.reverse "8.1.0" w ∧ v ≤ w := by
  intro names
  have hsorts : Candidate.Sorts (Candidate.ofNames names)
      [⟨"7.4", ⟨7, 4, 0⟩⟩, ⟨"v7.4", ⟨7, 4, 0⟩⟩, ⟨"8.1", ⟨8, 1, 0⟩⟩, ⟨"8.1.0", ⟨8, 1, 0⟩⟩] := by
    decide +kernel
  have hlow : minimum names = .ok "7.4" := by
    rw [minimum_eq_ok_iff, sort_of_sorts hsorts]
    rfl
  have hhigh : maximum names = .ok "8.1.0" := by
    rw [maximum_eq_ok_iff, sort_of_sorts hsorts]
    rfl
  obtain ⟨-, -, hminimum, hmaximum, hends⟩ := extremes_of_names names
  obtain ⟨v, hv⟩ := (hminimum "7.4").mp hlow
  obtain ⟨w, hw⟩ := (hmaximum "8.1.0").mp hhigh
  exact ⟨hlow, hhigh, v, w, hv, hw, (hends "7.4" v "8.1.0" w hv hw).2.2⟩

end Name
end ReleaseMatrix
