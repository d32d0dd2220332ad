/-
  Release lines — what `~` and `^` ask of a version.

  Both signs ask for a literal's floor or a later version, as long as some leading numbers of the
  literal stay as they are.  The tilde holds on to the major and the minor, the caret to all numbers
  up to the first that is not zero:

      ~8.1.2    8.1   stays      from 8.1.2 on, before 8.2.0
      ~8        8     stays      from 8.0.0 on, before 9.0.0
      ^8.1.2    8     stays      from 8.1.2 on, before 9.0.0
      ^0.2.3    0.2   stays      from 0.2.3 on, before 0.3.0
      ^0.0      0.0   stays      from 0.0.0 on, before 0.1.0

  What is put down is the interval in the last column.  Its end is the floor with the last of the
  numbers that stay counted up by one, and a version past the floor lies before that end iff the
  numbers stay (`lt_nextMajor_iff` and its two companions).  This needs the successor among the
  words, and so the bound on the digits of a literal.

  1. **Lines** — `Literal.Line`, `admits_tilde`, `admits_caret`.
  2. **Requirements** — `means_line`, for both signs in front of any accepted literal.
-/
import ReleaseMatrix.Proofs.Requirement.Atom

namespace ReleaseMatrix

/-! ## Before the next line -/

namespace Version

/-- The three numbers, the major first. -/
def numbers (v : Version) : List UInt64 := [v.major, v.minor, v.patch]

/-- No version is below 0.0.0. -/
theorem zero_le (v : Version) : (⟨0, 0, 0⟩ : Version) ≤ v := by
  rw [le_iff]
  simp only [UInt64.toNat_zero]
  omega

/-- A later version comes before the next major iff it has the same major. -/
theorem lt_nextMajor_iff {low v : Version}
    (hbump : (bump low.major).toNat = low.major.toNat + 1) (hle : low ≤ v) :
    v < low.nextMajor ↔ [low.major] <+: v.numbers := by
  rw [le_iff] at hle
  simp only [lt_iff, nextMajor, hbump, UInt64.toNat_zero, numbers, List.cons_prefix_cons,
    List.nil_prefix, and_true, ← UInt64.toNat_inj]
  omega

/-- A later version comes before the next minor iff it has the same major and minor. -/
theorem lt_nextMinor_iff {low v : Version}
    (hbump : (bump low.minor).toNat = low.minor.toNat + 1) (hle : low ≤ v) :
    v < low.nextMinor ↔ [low.major, low.minor] <+: v.numbers := by
  rw [le_iff] at hle
  simp only [lt_iff, nextMinor, hbump, UInt64.toNat_zero, numbers, List.cons_prefix_cons,
    List.nil_prefix, and_true, ← UInt64.toNat_inj]
  omega

/-- No later version comes before the next patch. -/
theorem lt_nextPatch_iff {low v : Version}
    (hbump : (bump low.patch).toNat = low.patch.toNat + 1) (hle : low ≤ v) :
    v < low.nextPatch ↔ [low.major, low.minor, low.patch] <+: v.numbers := by
  rw [le_iff] at hle
  simp only [lt_iff, nextPatch, hbump, numbers, List.cons_prefix_cons, List.nil_prefix, and_true,
    ← UInt64.toNat_inj]
  omega

end Version

/-! ## Lines -/

namespace Literal

/-- The versions from the floor of the literal on that begin with the numbers `kept`. -/
def Line (l : Literal) (kept : List UInt64) (v : Version) : Prop :=
  l.floor ≤ v ∧ kept <+: v.numbers

/-- The numbers up to the first that is not zero; all of them if there is none. -/
def throughNonzero : List UInt64 → List UInt64
  | [] => []
  | n :: rest => if n = 0 then n :: throughNonzero rest else [n]

/-- What is kept of the numbers is what they begin with. -/
theorem throughNonzero_prefix (ns : List UInt64) : throughNonzero ns <+: ns := by
  induction ns with
  | nil => exact List.nil_prefix
  | cons n rest ih =>
    rw [throughNonzero]
    split
    case isTrue => exact List.cons_prefix_cons.mpr ⟨rfl, ih⟩
    case isFalse => exact List.cons_prefix_cons.mpr ⟨rfl, List.nil_prefix⟩

/-- The floor begins with the numbers of the literal. -/
theorem numbers_prefix_floor (l : Literal) : l.numbers <+: l.floor.numbers := by
  cases l <;> simp [numbers, floor, Version.numbers]

/-- A line that keeps leading numbers of the literal is not empty. -/
theorem line_floor {l : Literal} {kept : List UInt64} (h : kept <+: l.numbers) :
    l.Line kept l.floor :=
  ⟨le_refl l.floor, h.trans l.numbers_prefix_floor⟩

/-- A literal without numbers keeps none, and its line is all versions. -/
theorem line_any (v : Version) : any.Line [] v := ⟨v.zero_le, List.nil_prefix⟩

/-! ## Intervals as lines -/

/-- A number of the floor is given, or it is zero. -/
theorem mem_numbers_of_mem_floor {l : Literal} {n : UInt64} (h : n ∈ l.floor.numbers) :
    n ∈ l.numbers ∨ n = 0 := by
  cases l <;> grind [floor, Version.numbers, numbers]

/-- No number of the floor is too great to be counted up. -/
theorem Bounded.toNat_bump_floor {l : Literal} (hbounded : l.Bounded) {n : UInt64}
    (hn : n ∈ l.floor.numbers) : (Version.bump n).toNat = n.toNat + 1 := by
  rcases mem_numbers_of_mem_floor hn with hgiven | rfl
  · exact hbounded.toNat_bump hgiven
  · rfl

/-- Before the next major, the major stays. -/
theorem admits_majorLine {l : Literal} (hbounded : l.Bounded) (v : Version) :
    (interval l.floor l.floor.nextMajor).admits v = true ↔ l.Line [l.floor.major] v := by
  rw [admits_interval, Line]
  have hbump := hbounded.toNat_bump_floor (n := l.floor.major) (by simp [Version.numbers])
  exact and_congr_right (Version.lt_nextMajor_iff hbump)

/-- Before the next minor, the major and the minor stay. -/
theorem admits_minorLine {l : Literal} (hbounded : l.Bounded) (v : Version) :
    (interval l.floor l.floor.nextMinor).admits v = true ↔
      l.Line [l.floor.major, l.floor.minor] v := by
  rw [admits_interval, Line]
  have hbump := hbounded.toNat_bump_floor (n := l.floor.minor) (by simp [Version.numbers])
  exact and_congr_right (Version.lt_nextMinor_iff hbump)

/-- Before the next patch, everything stays. -/
theorem admits_patchLine {l : Literal} (hbounded : l.Bounded) (v : Version) :
    (interval l.floor l.floor.nextPatch).admits v = true ↔
      l.Line [l.floor.major, l.floor.minor, l.floor.patch] v := by
  rw [admits_interval, Line]
  have hbump := hbounded.toNat_bump_floor (n := l.floor.patch) (by simp [Version.numbers])
  exact and_congr_right (Version.lt_nextPatch_iff hbump)

/-! ## Tilde and caret -/

/-- **The tilde keeps the major, and the minor if the literal gives one.** -/
theorem admits_tilde {l : Literal} (hbounded : l.Bounded) (v : Version) :
    l.tilde.admits v = true ↔ l.Line (l.numbers.take 2) v := by
  cases l with
  | any => exact iff_of_true (Constraint.admits_anything v) (line_any v)
  | major => exact admits_majorLine hbounded v
  | minor | patch => exact admits_minorLine hbounded v

/-- **The caret keeps the numbers up to the first that is not zero.** -/
theorem admits_caret {l : Literal} (hbounded : l.Bounded) (v : Version) :
    l.caret.admits v = true ↔ l.Line (throughNonzero l.numbers) v := by
  cases l with
  | any => exact iff_of_true (Constraint.admits_anything v) (line_any v)
  | major a =>
    simp only [numbers, throughNonzero, ite_self]
    exact admits_majorLine hbounded v
  | minor a b =>
    show (interval (minor a b).floor (minor a b).caretEnd).admits v = true ↔ _
    simp only [caretEnd, numbers, throughNonzero, ite_self]
    split
    case isTrue => exact admits_minorLine hbounded v
    case isFalse => exact admits_majorLine hbounded v
  | patch a b c =>
    show (interval (patch a b c).floor (patch a b c).caretEnd).admits v = true ↔ _
    simp only [caretEnd, numbers, throughNonzero, ite_self]
    split
    case isTrue =>
      split
      case isTrue => exact admits_patchLine hbounded v
      case isFalse => exact admits_minorLine hbounded v
    case isFalse => exact admits_majorLine hbounded v

end Literal

namespace Requirement

/-! ## Requirements -/

/-- **A tilde or a caret and an accepted literal**: the requirement is read without a problem, and
admits the versions from the floor of the literal on that keep its leading numbers: behind a tilde
the major and, if it is given, the minor; behind a caret all numbers up to the first that is not
zero, or all that are given if there is none.  A literal that gives no number leaves every version
in.  The floor itself is always admitted. -/
theorem means_line {literal : String} {l : Literal}
    (hread : Literal.read? literal.toList = some l) :
    Means ("~" ++ literal) (fun v => l.floor ≤ v ∧ l.numbers.take 2 <+: v.numbers) ∧
    Means ("^" ++ literal) (fun v => l.floor ≤ v ∧ Literal.throughNonzero l.numbers <+: v.numbers) ∧
    (l.isAny = true → ∀ sign ∈ ["~", "^"], Means (sign ++ literal) fun _ => True) ∧
    ∀ sign ∈ ["~", "^"], (ofText (sign ++ literal)).admits l.floor = true := by
  have hbounded := Literal.bounded_of_read? hread
  have htilde : Means ("~" ++ literal) fun v => l.Line (l.numbers.take 2) v := by
    have hspelling : ("~", Sign.tilde) ∈ Sign.spellings := by decide
    obtain ⟨hproblems, hadmits⟩ := means_of_spelling hspelling hread rfl
    exact ⟨hproblems, fun v => (hadmits v).trans (Literal.admits_tilde hbounded v)⟩
  have hcaret : Means ("^" ++ literal) fun v => l.Line (Literal.throughNonzero l.numbers) v := by
    have hspelling : ("^", Sign.caret) ∈ Sign.spellings := by decide
    obtain ⟨hproblems, hadmits⟩ := means_of_spelling hspelling hread rfl
    exact ⟨hproblems, fun v => (hadmits v).trans (Literal.admits_caret hbounded v)⟩
  refine ⟨htilde, hcaret, ?_, ?_⟩
  · intro hany
    -- without numbers the floor is 0.0.0 and nothing is kept, so both lines are all versions
    obtain rfl := Literal.eq_any_of_isAny hany
    have hall (v : Version) : Literal.any.Line [] v ↔ True := iff_true_intro (Literal.line_any v)
    simp only [List.forall_mem_cons, List.not_mem_nil, false_imp_iff, implies_true, and_true]
    exact ⟨⟨htilde.1, fun v => (htilde.2 v).trans (hall v)⟩,
      ⟨hcaret.1, fun v => (hcaret.2 v).trans (hall v)⟩⟩
  · simp only [List.forall_mem_cons, List.not_mem_nil, false_imp_iff, implies_true, and_true]
    constructor
    · exact (htilde.2 l.floor).mpr (Literal.line_floor (List.take_prefix 2 _))
    · exact (hcaret.2 l.floor).mpr (Literal.line_floor (Literal.throughNonzero_prefix _))

/-- Two zeros and sixteen nines: the caret keeps all three numbers, and the patch has a successor. -/
theorem means_line_widest :
    Literal.read? "v0.0.9999999999999999-RC1".toList = some (.patch 0 0 9999999999999999) ∧
    Means ("^" ++ "v0.0.9999999999999999-RC1") fun v =>
      (⟨0, 0, 9999999999999999⟩ : Version) ≤ v ∧ [0, 0, 9999999999999999] <+: v.numbers :=
  ⟨by decide +kernel, (means_line (l := .patch 0 0 9999999999999999) (by decide +kernel)).2.1⟩

end Requirement
end ReleaseMatrix
