/-
  Sorting candidates — nothing is lost, versions ascend, and ties stay as they are.

  A candidate is genuine if its version is the one that its name holds; candidates are only ever
  made so (`genuine_of_mem_ofNames`), and so one may speak of the versions of their names instead.

  What makes a sort stable is said version by version: among all that is sorted, the candidates of
  one version are the same before and after, in the same order.  Together with the ascent of the
  versions, this fixes the whole list.

      8.1  7.4  v8.1  7.4.0        sorts to        7.4  7.4.0  8.1  v8.1

  1. **Any stable sort** — `filter_mergeSort`, a class of mutual ties is not rearranged.
  2. **Candidates** — `sorts_sort`, and `Sorts.unique`, by which filtering and sorting commute
     (`sort_filter`); `Sorts` can be decided.
  3. **Sorting more and less** — `sort_cons`, one candidate more, and `sort_sublist`, any number.
  4. **Sorting again** — `Name.sort_map_name`, names of sorted candidates stay as they are.
  5. **Sorting in another order** — `versions_sort_of_perm`, and `sort_eq_of_perm` where there are no
     ties.
-/
import Mathlib.Data.List.Basic
import ReleaseMatrix.Candidate
import ReleaseMatrix.Proofs.Version.Order

namespace ReleaseMatrix.Candidate

/-! ## Candidates and their names -/

/-- The version is the one that the name holds. -/
def Genuine (c : Candidate) : Prop := Version.extract? c.name = some c.version

/-- A name makes a candidate by the version that it holds. -/
theorem ofName?_eq_some_iff {name : String} {c : Candidate} :
    ofName? name = some c ↔ c.name = name ∧ c.Genuine := by
  rw [ofName?, Option.map_eq_some_iff]
  constructor
  · rintro ⟨v, hv, rfl⟩
    exact ⟨rfl, hv⟩
  · rintro ⟨rfl, hc⟩
    exact ⟨c.version, hc, rfl⟩

theorem genuine_of_mem_ofNames {names : List String} {c : Candidate} (h : c ∈ ofNames names) :
    c.Genuine := by
  obtain ⟨name, -, hname⟩ := List.mem_filterMap.mp h
  exact (ofName?_eq_some_iff.mp hname).2

/-- Filtering candidates by their versions is filtering names by the versions that they hold; names
without one are lost either way. -/
theorem map_name_filter_ofNames (p : Version → Bool) (names : List String) :
    ((ofNames names).filter fun c => p c.version).map name =
      names.filter fun n => (Version.extract? n).any p := by
  rw [ofNames, List.filter_filterMap, List.map_filterMap, ← List.filterMap_eq_filter]
  congr 1
  funext n
  rw [Option.guard, ofName?]
  cases Version.extract? n with
  | none => rfl
  | some v => cases hp : p v <;> simp [Option.filter, hp]

/-- Names that are read and given out again: those without a version are lost. -/
theorem map_name_ofNames (names : List String) :
    (ofNames names).map name = names.filter fun n => (Version.extract? n).isSome := by
  have hall := map_name_filter_ofNames (fun _ => true) names
  rw [List.filter_true] at hall
  rw [hall]
  refine List.filter_congr fun n _ => ?_
  cases Version.extract? n <;> rfl

/-- On names of genuine candidates, one may filter by the version of the candidate. -/
theorem filter_map_name (v : Version) {cs : List Candidate} (h : ∀ c ∈ cs, c.Genuine) :
    (cs.map name).filter (fun n => Version.extract? n = some v) =
      (cs.filter fun c => c.version = v).map name := by
  rw [List.filter_map]
  refine congrArg (List.map name) (List.filter_congr fun c hc => ?_)
  have hheld : Version.extract? c.name = some c.version := h c hc
  simp [hheld]

/-- On names of genuine candidates, one may speak of the versions that they hold. -/
theorem pairwise_map_name {related : Version → Version → Prop} {cs : List Candidate}
    (hgenuine : ∀ c ∈ cs, c.Genuine) (h : cs.Pairwise fun a b => related a.version b.version) :
    (cs.map name).Pairwise fun a b =>
      ∃ v w, Version.extract? a = some v ∧ Version.extract? b = some w ∧ related v w := by
  rw [List.pairwise_map]
  refine h.imp_of_mem fun {a b} ha hb hab => ?_
  exact ⟨a.version, b.version, hgenuine a ha, hgenuine b hb, hab⟩

/-! ## Stable sorts -/

/-- **What a sort holds to be equal stays as it is**: it is a sorted part of the list, and a stable
sort keeps such parts. -/
theorem filter_mergeSort {α : Type} {le : α → α → Bool}
    (htrans : ∀ a b c, le a b = true → le b c = true → le a c = true)
    (htotal : ∀ a b, (le a b || le b a) = true) {p : α → Bool}
    (htie : ∀ a b, p a = true → p b = true → le a b = true) (l : List α) :
    (l.mergeSort le).filter p = l.filter p := by
  have hsorted : (l.filter p).Pairwise fun a b => le a b = true :=
    List.pairwise_of_forall_mem_list fun a ha b hb =>
      htie a b (List.mem_filter.mp ha).2 (List.mem_filter.mp hb).2
  -- a stable sort leaves what is in order where it is
  have hkept : (l.filter p).Sublist (l.mergeSort le) :=
    List.sublist_mergeSort htrans htotal hsorted List.filter_sublist
  have hinside : (l.filter p).Sublist ((l.mergeSort le).filter p) := by
    have := hkept.filter p
    rwa [List.filter_eq_self.mpr fun a ha => (List.mem_filter.mp ha).2] at this
  -- and none is added, so a sublist of the same length is all
  have hlength : ((l.mergeSort le).filter p).length = (l.filter p).length :=
    ((List.mergeSort_perm l le).filter p).length_eq
  exact (hinside.eq_of_length hlength.symm).symm

/-- The same candidates with their versions ascending, those of one version in their old order. -/
structure Sorts (cs sorted : List Candidate) : Prop where
  perm : sorted.Perm cs
  ascending : sorted.Pairwise fun a b => a.version ≤ b.version
  stable : ∀ v, sorted.filter (fun c => c.version = v) = cs.filter fun c => c.version = v

/-- Whether something is the sort of some candidates can be checked, as only the versions that these
have are to be looked at. -/
theorem sorts_iff {cs sorted : List Candidate} :
    Sorts cs sorted ↔ sorted.Perm cs ∧ (sorted.Pairwise fun a b => a.version ≤ b.version) ∧
      ∀ d ∈ cs, sorted.filter (fun c => c.version = d.version) =
        cs.filter fun c => c.version = d.version := by
  constructor
  · rintro ⟨hperm, hascending, hstable⟩
    exact ⟨hperm, hascending, fun d _ => hstable d.version⟩
  · rintro ⟨hperm, hascending, hstable⟩
    refine ⟨hperm, hascending, fun v => ?_⟩
    by_cases hheld : ∃ d ∈ cs, d.version = v
    · obtain ⟨d, hd, rfl⟩ := hheld
      exact hstable d hd
    · -- nobody holds the version, so both classes are empty
      have hnone : ∀ d ∈ cs, ¬ decide (d.version = v) = true := fun d hd heq =>
        hheld ⟨d, hd, of_decide_eq_true heq⟩
      rw [List.filter_eq_nil_iff.mpr hnone,
        List.filter_eq_nil_iff.mpr fun d hd => hnone d (hperm.mem_iff.mp hd)]

instance (cs sorted : List Candidate) : Decidable (Sorts cs sorted) :=
  decidable_of_iff _ sorts_iff.symm

theorem compare_trans (a b c : Candidate) (hab : (a.version.compare b.version).isLE = true)
    (hbc : (b.version.compare c.version).isLE = true) :
    (a.version.compare c.version).isLE = true := by
  have hle : a.version ≤ b.version ∧ b.version ≤ c.version := ⟨hab, hbc⟩
  exact le_trans hle.1 hle.2

theorem compare_total (a b : Candidate) :
    ((a.version.compare b.version).isLE || (b.version.compare a.version).isLE) = true := by
  rw [Bool.or_eq_true]
  exact le_total a.version b.version

/-- **The sort is a stable one.** -/
theorem sorts_sort (cs : List Candidate) : Sorts cs (sort cs) := by
  refine ⟨List.mergeSort_perm cs _, List.pairwise_mergeSort compare_trans compare_total cs,
    fun v => ?_⟩
  refine filter_mergeSort compare_trans compare_total (fun a b ha hb => ?_) cs
  have heq : a.version = b.version := (of_decide_eq_true ha).trans (of_decide_eq_true hb).symm
  exact le_of_eq heq

theorem mem_sort {c : Candidate} {cs : List Candidate} : c ∈ sort cs ↔ c ∈ cs :=
  (sorts_sort cs).perm.mem_iff

theorem sort_eq_nil_iff {cs : List Candidate} : sort cs = [] ↔ cs = [] := by
  rw [← List.length_eq_zero_iff, (sorts_sort cs).perm.length_eq, List.length_eq_zero_iff]

/-- **A stable sort has one result**: both lists begin with a lowest version, and the class of that
version begins both with the same candidate. -/
theorem Sorts.unique {cs a b : List Candidate} (ha : Sorts cs a) (hb : Sorts cs b) : a = b := by
  obtain ⟨hpermA, hascA, hstableA⟩ := ha
  obtain ⟨hpermB, hascB, hstableB⟩ := hb
  have hperm : a.Perm b := hpermA.trans hpermB.symm
  have hsame (v : Version) : a.filter (fun c => c.version = v) = b.filter fun c => c.version = v :=
    (hstableA v).trans (hstableB v).symm
  clear hpermA hpermB hstableA hstableB
  induction a generalizing b with
  | nil => exact hperm.nil_eq
  | cons x a ih =>
    cases b with
    | nil => exact hperm.eq_nil
    | cons y b =>
      rw [List.pairwise_cons] at hascA hascB
      -- either head is the least of the same candidates
      have hxy : x.version ≤ y.version := by
        rcases List.mem_cons.mp (hperm.mem_iff.mpr List.mem_cons_self) with rfl | hy
        · exact le_refl _
        · exact hascA.1 y hy
      have hyx : y.version ≤ x.version := by
        rcases List.mem_cons.mp (hperm.mem_iff.mp List.mem_cons_self) with rfl | hx
        · exact le_refl _
        · exact hascB.1 x hx
      have hversion : y.version = x.version := le_antisymm hyx hxy
      -- of one version both lists begin with the same candidate
      obtain rfl : x = y := by
        have hclass := hsame x.version
        rw [List.filter_cons_of_pos (by simp), List.filter_cons_of_pos (by simpa)] at hclass
        exact (List.cons.inj hclass).1
      refine congrArg (x :: ·) (ih hascA.2 hascB.2 (List.perm_cons x |>.mp hperm) fun v => ?_)
      have hclass := hsame v
      rw [List.filter_cons, List.filter_cons] at hclass
      split at hclass
      · exact (List.cons.inj hclass).2
      · exact hclass

/-- **Filtering and sorting commute.** -/
theorem sort_filter (p : Candidate → Bool) (cs : List Candidate) :
    sort (cs.filter p) = (sort cs).filter p := by
  obtain ⟨hperm, hascending, hstable⟩ := sorts_sort cs
  refine (sorts_sort (cs.filter p)).unique ⟨hperm.filter p, hascending.filter p, fun v => ?_⟩
  rw [List.filter_comm, hstable v, List.filter_comm]

/-! ## Sorting more and less -/

/-- The candidates of lower versions. -/
def below (v : Version) (cs : List Candidate) : List Candidate :=
  cs.filter fun c => c.version < v

/-- The candidates of this version and of higher ones. -/
def fromOn (v : Version) (cs : List Candidate) : List Candidate :=
  cs.filter fun c => v ≤ c.version

/-- **One candidate more**, in front of the others, comes right behind those of lower versions and
moves none of the others. -/
theorem sort_cons (c : Candidate) (cs : List Candidate) :
    sort cs = below c.version (sort cs) ++ fromOn c.version (sort cs) ∧
      sort (c :: cs) = below c.version (sort cs) ++ c :: fromOn c.version (sort cs) := by
  obtain ⟨lower, upper, hadded, hothers, hlower⟩ :
      ∃ lower upper, sort (c :: cs) = lower ++ c :: upper ∧ sort cs = lower ++ upper ∧
        ∀ d ∈ lower, (!(c.version.compare d.version).isLE) = true :=
    List.mergeSort_cons compare_trans compare_total c cs
  have hascending := (sorts_sort (c :: cs)).ascending
  rw [hadded] at hascending
  have hupper : ∀ d ∈ upper, c.version ≤ d.version := fun d hd =>
    List.rel_of_pairwise_cons (List.pairwise_append.mp hascending).2.1 hd
  have hlower : ∀ d ∈ lower, d.version < c.version := by
    intro d hd
    refine lt_of_not_ge fun hle => ?_
    have hfalse : (c.version.compare d.version).isLE = false := by simpa using hlower d hd
    exact Bool.false_ne_true (hfalse.symm.trans hle)
  -- what stands before `c` is lower, and what stands behind it is not
  have hbelow : below c.version (sort cs) = lower := by
    rw [below, hothers, List.filter_append,
      List.filter_eq_self.mpr fun d hd => decide_eq_true (hlower d hd),
      List.filter_eq_nil_iff.mpr fun d hd => by simpa using hupper d hd, List.append_nil]
  have hfromOn : fromOn c.version (sort cs) = upper := by
    rw [fromOn, hothers, List.filter_append,
      List.filter_eq_self.mpr fun d hd => decide_eq_true (hupper d hd),
      List.filter_eq_nil_iff.mpr fun d hd => by simpa using hlower d hd, List.nil_append]
  rw [hbelow, hfromOn]
  exact ⟨hothers, hadded⟩

/-- **Sorting keeps sublists**: what is left out does not move the rest.  By induction on the
sublist; a candidate at the head of both lists parts either sort at its version, and the parts are
sublists as the whole sorts are. -/
theorem sort_sublist {cs ds : List Candidate} (h : cs.Sublist ds) :
    (sort cs).Sublist (sort ds) := by
  induction h with
  | slnil => exact List.Sublist.refl _
  | @cons cs ds c _ ih =>
    obtain ⟨hothers, hadded⟩ := sort_cons c ds
    rw [hothers] at ih
    rw [hadded]
    exact ih.middle c
  | @cons_cons cs ds c _ ih =>
    rw [(sort_cons c cs).2, (sort_cons c ds).2]
    exact (ih.filter _).append ((ih.filter _).cons_cons c)

/-! ## Sorting again -/

/-- What is in order already stays as it is, ties included. -/
theorem sort_eq_self {cs : List Candidate}
    (h : cs.Pairwise fun a b => a.version ≤ b.version) : sort cs = cs :=
  List.mergeSort_of_pairwise h

/-- Genuine candidates are the candidates of their names. -/
theorem ofNames_map_name {cs : List Candidate} (h : ∀ c ∈ cs, c.Genuine) :
    ofNames (cs.map name) = cs := by
  induction cs with
  | nil => rfl
  | cons c cs ih =>
    obtain ⟨hc, hcs⟩ := List.forall_mem_cons.mp h
    rw [List.map_cons, ofNames, List.filterMap_cons_some (ofName?_eq_some_iff.mpr ⟨rfl, hc⟩)]
    exact congrArg (c :: ·) (ih hcs)

/-! ## Sorting in another order -/

section

variable {cs ds : List Candidate} (h : cs.Perm ds)
include h

theorem perm_sort_of_perm : (sort cs).Perm (sort ds) :=
  (sorts_sort cs).perm.trans (h.trans (sorts_sort ds).perm.symm)

/-- Reordered candidates are sorted to the same versions. -/
theorem versions_sort_of_perm : (sort cs).map version = (sort ds).map version := by
  have hperm : ((sort cs).map version).Perm ((sort ds).map version) :=
    (perm_sort_of_perm h).map version
  refine List.Perm.eq_of_pairwise (fun v w _ _ => le_antisymm) ?_ ?_ hperm
  · exact List.pairwise_map.mpr (sorts_sort cs).ascending
  · exact List.pairwise_map.mpr (sorts_sort ds).ascending

/-- **Without ties the order decides nothing**: if candidates of one version are the same one, they
are sorted alike in whatever order they come. -/
theorem sort_eq_of_perm (huntied : ∀ a ∈ cs, ∀ b ∈ cs, a.version = b.version → a = b) :
    sort cs = sort ds := by
  refine List.Perm.eq_of_pairwise ?_ (sorts_sort cs).ascending (sorts_sort ds).ascending
    (perm_sort_of_perm h)
  intro a b ha hb hab hba
  have hb : b ∈ cs := h.mem_iff.mpr (mem_sort.mp hb)
  exact huntied a (mem_sort.mp ha) b hb (le_antisymm hab hba)

end

end ReleaseMatrix.Candidate

namespace ReleaseMatrix.Name

/-- Names that hold one version are one name. -/
def Untied (names : List String) : Prop :=
  ∀ a ∈ names, ∀ b ∈ names, ∀ v, Version.extract? a = some v → Version.extract? b = some v → a = b

/-- Genuine candidates of untied names are told apart by their versions. -/
theorem Untied.eq_of_version_eq {names : List String} (huntied : Untied names)
    {cs : List Candidate} (hgenuine : ∀ c ∈ cs, c.Genuine) (hnames : ∀ c ∈ cs, c.name ∈ names) :
    ∀ a ∈ cs, ∀ b ∈ cs, a.version = b.version → a = b := by
  intro a ha b hb hversion
  have hheld : Version.extract? b.name = some a.version := by
    rw [hversion]
    exact hgenuine b hb
  have hname : a.name = b.name :=
    huntied a.name (hnames a ha) b.name (hnames b hb) a.version (hgenuine a ha) hheld
  cases a
  cases b
  exact congrArg₂ Candidate.mk hname hversion

/-- The candidates of some names, once they are sorted, sort the names. -/
theorem sort_of_sorts {names : List String} {sorted : List Candidate}
    (h : Candidate.Sorts (Candidate.ofNames names) sorted) :
    sort names = sorted.map Candidate.name := by
  rw [sort, (Candidate.sorts_sort _).unique h]

/-- The names of sorted candidates are sorted. -/
theorem sort_map_name {cs : List Candidate} (hgenuine : ∀ c ∈ cs, c.Genuine)
    (hsorted : cs.Pairwise fun a b => a.version ≤ b.version) :
    sort (cs.map Candidate.name) = cs.map Candidate.name := by
  rw [sort, Candidate.ofNames_map_name hgenuine, Candidate.sort_eq_self hsorted]

end ReleaseMatrix.Name
