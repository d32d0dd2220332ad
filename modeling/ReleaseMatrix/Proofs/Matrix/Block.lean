/-
  Blocks — the matrix of a requirement without gaps is one stretch of the sorted catalog.

  Filtering and sorting commute, so a matrix is what the requirement leaves of the names that the
  filters let through, once these are sorted.  If the requirement has no gap, it leaves a stretch:

      sorted   7.4   8.0   8.1   8.2   8.3   8.4
      ^8.1                 8.1   8.2   8.3   8.4
      <8.3 >7        8.0   8.1   8.2

  1. **Stretches** — `filter_isInfix`, a gapless part of an ascending list has no hole.
  2. **The matrix** — `leaves_no_gaps`.
-/
import ReleaseMatrix.Proofs.Matrix.Extremes
import ReleaseMatrix.Proofs.Requirement.Gaps

namespace ReleaseMatrix

/-! ## Stretches of sorted candidates -/

namespace Candidate

variable {p : Version → Bool} {cs : List Candidate}

/-- Behind a member of the part, the part goes on until it ends for good. -/
theorem filter_isPrefix (hgapless : {v | p v = true}.OrdConnected) {first : Version}
    (hfirst : p first = true) (hbelow : ∀ c ∈ cs, first ≤ c.version)
    (hascending : cs.Pairwise fun a b => a.version ≤ b.version) :
    cs.filter (fun c => p c.version) <+: cs := by
  induction cs with
  | nil => exact List.nil_prefix
  | cons c cs ih =>
    obtain ⟨hc, hcs⟩ := List.forall_mem_cons.mp hbelow
    obtain ⟨hnext, hascending⟩ := List.pairwise_cons.mp hascending
    cases hp : p c.version with
    | true =>
      rw [List.filter_cons_of_pos (by exact hp), List.cons_prefix_cons]
      exact ⟨rfl, ih hcs hascending⟩
    | false =>
      -- a later member would leave a hole at `c`
      have hnone : (c :: cs).filter (fun c => p c.version) = [] := by
        rw [List.filter_cons_of_neg (by simp [hp]), List.filter_eq_nil_iff]
        intro d hd hmem
        have hbetween : p c.version = true := hgapless.out hfirst hmem ⟨hc, hnext d hd⟩
        rw [hp] at hbetween
        cases hbetween
      rw [hnone]
      exact List.nil_prefix

/-- **A gapless part of an ascending list is a stretch of it.** -/
theorem filter_isInfix (hgapless : {v | p v = true}.OrdConnected)
    (hascending : cs.Pairwise fun a b => a.version ≤ b.version) :
    cs.filter (fun c => p c.version) <:+: cs := by
  induction cs with
  | nil => exact List.nil_infix
  | cons c cs ih =>
    obtain ⟨hnext, htail⟩ := List.pairwise_cons.mp hascending
    cases hp : p c.version with
    | true =>
      have hbelow : ∀ d ∈ c :: cs, c.version ≤ d.version :=
        List.forall_mem_cons.mpr ⟨le_refl _, hnext⟩
      exact (filter_isPrefix hgapless hp hbelow hascending).isInfix
    | false =>
      rw [List.filter_cons_of_neg (by simp [hp])]
      exact List.infix_cons (ih htail)

end Candidate

namespace Matrix

/-! ## The matrix -/

/-- The matrix is what the requirement leaves of the sorted names. -/
theorem eq_filter_of_build {constraint : String} {releases : List Release} {f : Filters}
    {names : List String} (h : build constraint releases f = .ok names) :
    names = ((Candidate.sort (candidates f releases)).filter fun c =>
      (Requirement.ofText constraint).admits c.version).map Candidate.name := by
  obtain ⟨-, rfl⟩ := eq_of_build h
  rw [matching, Candidate.sort_filter]

/-- **Without bars and exclusions there are no gaps.**  If a text has no bar, and none of its atoms
begins with `!=` or `<>`, then with two versions it admits all those between them; and its matrix is
one stretch of the names that the filters let through, sorted by their versions. -/
theorem leaves_no_gaps {text : String} (hbar : '|' ∉ text.toList)
    (hatoms : ∀ atom, Clause.Token.atom atom ∈ Clause.tokens text.toList →
      ¬ "!=".toList <+: atom ∧ ¬ "<>".toList <+: atom) :
    (∀ a b c : Version, a ≤ b → b ≤ c → (Requirement.ofText text).admits a = true →
      (Requirement.ofText text).admits c = true → (Requirement.ofText text).admits b = true) ∧
    ∀ releases f names, build text releases f = .ok names →
      names <:+: Name.sort (f.names releases) := by
  have hgapless := Requirement.gapless_ofText hbar fun atom hmem => not_or.mpr (hatoms atom hmem)
  refine ⟨fun a b c hab hbc ha hc => hgapless.out ha hc ⟨hab, hbc⟩, ?_⟩
  intro releases f names hbuild
  rw [eq_filter_of_build hbuild]
  have hascending := (Candidate.sorts_sort (candidates f releases)).ascending
  exact (Candidate.filter_isInfix hgapless hascending).map Candidate.name

/-- A range and a bound: with 8.0 and 8.2 goes 8.1, and the matrix is cut out of the catalog. -/
theorem leaves_no_gaps_between :
    let text := "7 - 8.2 >7.4"
    let releases := ["7.4", "8.0", "8.1", "8.2", "8.3"].map fun name =>
      (⟨name, false, false, false⟩ : Release)
    '|' ∉ text.toList ∧
    (∀ atom, Clause.Token.atom atom ∈ Clause.tokens text.toList →
      ¬ "!=".toList <+: atom ∧ ¬ "<>".toList <+: atom) ∧
    (Requirement.ofText text).admits ⟨8, 1, 0⟩ = true ∧
    build text releases .default = .ok ["8.0", "8.1", "8.2"] ∧
    ["8.0", "8.1", "8.2"] <:+: Name.sort ["7.4", "8.0", "8.1", "8.2", "8.3"] := by
  intro text releases
  have hbar : '|' ∉ text.toList := by decide
  have hatoms : ∀ atom, Clause.Token.atom atom ∈ Clause.tokens text.toList →
      ¬ "!=".toList <+: atom ∧ ¬ "<>".toList <+: atom := by
    have htokens : Clause.tokens text.toList =
        [.range "7".toList "8.2".toList, .atom ">7.4".toList] := by
      decide +kernel
    intro atom hmem
    obtain rfl : atom = ">7.4".toList := by simpa [htokens] using hmem
    decide
  have hmatching : matching (Requirement.ofText text) .default releases =
      [⟨"8.0", ⟨8, 0, 0⟩⟩, ⟨"8.1", ⟨8, 1, 0⟩⟩, ⟨"8.2", ⟨8, 2, 0⟩⟩] := by
    decide +kernel
  have hbuild : build text releases .default = .ok ["8.0", "8.1", "8.2"] := by
    simp only [build, hmatching]
    rw [Candidate.sort_eq_self (by decide)]
    rfl
  have hgaps := leaves_no_gaps hbar hatoms
  have hbetween : (Requirement.ofText text).admits ⟨8, 1, 0⟩ = true :=
    hgaps.1 ⟨8, 0, 0⟩ ⟨8, 1, 0⟩ ⟨8, 2, 0⟩ (by decide) (by decide) (by decide +kernel)
      (by decide +kernel)
  exact ⟨hbar, hatoms, hbetween, hbuild, hgaps.2 releases .default _ hbuild⟩

end Matrix
end ReleaseMatrix
