/-
  Growth — more releases or looser filters insert names into a matrix and do nothing else.

  Every stage works on one release at a time except the sort, and a sort does not move the others
  when some are left out (`Candidate.sort_sublist`).  So a part of the catalog, seen through filters
  that let less through, gives a part of the matrix:

      7.4   8.0   v8.0   8.1   8.2        the whole catalog
      7.4   8.0   v8.0         8.2        without 8.1
      7.4   8.0   v8.0                    and without future releases

  What a smaller matrix lists stands in the larger one in the same order, and at least as often.

  1. **Filters** — `Filters.Loosens`, one filter is at least as loose as another.
  2. **The matrix** — `Matrix.listed_sublist`.
-/
import Mathlib.Data.List.Basic
import ReleaseMatrix.Proofs.Matrix.Agreement

namespace ReleaseMatrix

/-! ## Filters -/

/-- What is secure counts as supported under either policy. -/
theorem Release.isSupported_of_secureOnly {r : Release} (policy : SupportPolicy)
    (h : r.isSupported .secureOnly = true) : r.isSupported policy = true := by
  have hsecure : r.isSecure = true := h
  cases policy with
  | secureOrMaintained => simp [isSupported, hsecure]
  | secureOnly => exact h

namespace Filters

/-- The filters `g` are as loose as `f` in each respect, or looser: a flag may be set in addition,
and the policy may count maintained releases as supported in addition. -/
structure Loosens (f g : Filters) : Prop where
  future : f.includeFuture = true → g.includeFuture = true
  unsupported : f.includeUnsupported = true → g.includeUnsupported = true
  policy : f.policy = .secureOrMaintained → g.policy = .secureOrMaintained

/-- Looser filters let through what the others do. -/
theorem Loosens.admits {f g : Filters} (h : f.Loosens g) {r : Release} (hr : f.admits r = true) :
    g.admits r = true := by
  simp only [Filters.admits, Bool.and_eq_true, Bool.or_eq_true] at hr ⊢
  obtain ⟨hfuture, hsupported⟩ := hr
  refine ⟨hfuture.imp_right h.future, hsupported.imp h.unsupported fun hsupported => ?_⟩
  cases hpolicy : f.policy with
  | secureOrMaintained => rwa [h.policy hpolicy, ← hpolicy]
  | secureOnly =>
    rw [hpolicy] at hsupported
    exact Release.isSupported_of_secureOnly g.policy hsupported

/-- Looser filters lose no name, and more releases lose none either. -/
theorem Loosens.names_sublist {f g : Filters} (h : f.Loosens g) {part releases : List Release}
    (hpart : part.Sublist releases) : (f.names part).Sublist (g.names releases) := by
  have hloose : (releases.filter f.admits).Sublist (releases.filter g.admits) :=
    List.monotone_filter_right releases fun r => h.admits
  exact ((hpart.filter f.admits).trans hloose).map Release.name

end Filters

/-! ## The matrix -/

namespace Matrix

/-- **More releases and looser filters only insert names.**  What the matrix of a part of the
catalog lists, under filters that are no looser, is a sublist of what the matrix of the catalog
lists: no name is lost, doubled or moved. -/
theorem listed_sublist (constraint : String) {part releases : List Release}
    (hpart : part.Sublist releases) {f g : Filters} (hloose : f.Loosens g) :
    (listed constraint part f).Sublist (listed constraint releases g) := by
  have hcandidates : (candidates f part).Sublist (candidates g releases) :=
    (hloose.names_sublist hpart).filterMap Candidate.ofName?
  have hmatching : (matching (Requirement.ofText constraint) f part).Sublist
      (matching (Requirement.ofText constraint) g releases) := hcandidates.filter _
  rw [listed_eq_sort, listed_eq_sort]
  exact (Candidate.sort_sublist hmatching).map Candidate.name

/-- 8.1 joins the catalog, and an unsupported release, a maintained one and a future one are let
through: each comes to where it belongs, also beside a name of the same version. -/
theorem listed_sublist_joined :
    let old : Release := ⟨"7.4", false, true, false⟩
    let secure : Release := ⟨"8.0", false, true, true⟩
    let maintained : Release := ⟨"v8.0", false, false, false⟩
    let joining : Release := ⟨"8.1", false, false, true⟩
    let coming : Release := ⟨"8.2", true, false, true⟩
    let part := [old, secure, maintained, coming]
    let releases := [old, secure, maintained, joining, coming]
    let f : Filters := ⟨false, false, .secureOnly⟩
    let g : Filters := ⟨true, true, .secureOrMaintained⟩
    part.Sublist releases ∧ f.Loosens g ∧
      listed ">=7" part f = ["8.0"] ∧
      listed ">=7" releases g = ["7.4", "8.0", "v8.0", "8.1", "8.2"] ∧
      (listed ">=7" part f).Sublist (listed ">=7" releases g) := by
  intro old secure maintained joining coming part releases f g
  have hpart : part.Sublist releases := by decide
  have hloose : f.Loosens g := ⟨fun _ => rfl, fun _ => rfl, fun _ => rfl⟩
  have hfew : matching (Requirement.ofText ">=7") f part = [⟨"8.0", ⟨8, 0, 0⟩⟩] := by
    decide +kernel
  have hmany : matching (Requirement.ofText ">=7") g releases =
      [⟨"7.4", ⟨7, 4, 0⟩⟩, ⟨"8.0", ⟨8, 0, 0⟩⟩, ⟨"v8.0", ⟨8, 0, 0⟩⟩, ⟨"8.1", ⟨8, 1, 0⟩⟩,
        ⟨"8.2", ⟨8, 2, 0⟩⟩] := by
    decide +kernel
  refine ⟨hpart, hloose, ?_, ?_, listed_sublist ">=7" hpart hloose⟩
  · rw [listed_eq_sort, hfew, Candidate.sort_eq_self (by decide)]
    rfl
  · rw [listed_eq_sort, hmany, Candidate.sort_eq_self (by decide)]
    rfl

end Matrix
end ReleaseMatrix
