/-
  The order of versions — lexicographic, and a linear order.

  `Version.compare` looks at majors first, then at minors, then at patches.  Read through the
  values of the words this is

      a < b   iff   major a < major b, or these are equal and
                    minor a < minor b, or these are equal too and patch a < patch b

  so every question about the order is one of linear arithmetic over three natural numbers.

  1. **Readings** — `lt_iff`, `le_iff`, `eq_iff` of the order, `Operator.holds_iff` of the six
     comparison operators.
  2. **The order** — the `LinearOrder` instance, on the very `compare`, `<` and `≤` that run.
-/
import Mathlib.Order.Defs.LinearOrder
import ReleaseMatrix.Constraint.Operator

namespace ReleaseMatrix.Version

/-! ## Readings in natural numbers -/

/-- Words compare as the numbers that they hold. -/
theorem compare_word (a b : UInt64) : Ord.compare a b = Ord.compare a.toNat b.toNat := by
  rcases Nat.lt_trichotomy a.toNat b.toNat with h | h | h
  · rw [Nat.compare_eq_lt.mpr h, Std.compare_eq_lt]
    exact h
  · rw [Nat.compare_eq_eq.mpr h, Std.LawfulEqOrd.compare_eq_iff_eq]
    exact UInt64.toNat.inj h
  · rw [Nat.compare_eq_gt.mpr h, Std.compare_eq_gt]
    exact h

theorem lt_iff {a b : Version} :
    a < b ↔ a.major.toNat < b.major.toNat ∨ a.major.toNat = b.major.toNat ∧
      (a.minor.toNat < b.minor.toNat ∨ a.minor.toNat = b.minor.toNat ∧
        a.patch.toNat < b.patch.toNat) := by
  show a.compare b = .lt ↔ _
  simp only [compare, compare_word, Ordering.then_eq_lt, Nat.compare_eq_lt, Nat.compare_eq_eq]

theorem le_iff {a b : Version} :
    a ≤ b ↔ a.major.toNat < b.major.toNat ∨ a.major.toNat = b.major.toNat ∧
      (a.minor.toNat < b.minor.toNat ∨ a.minor.toNat = b.minor.toNat ∧
        a.patch.toNat ≤ b.patch.toNat) := by
  show (a.compare b).isLE ↔ _
  simp only [compare, compare_word, Ordering.isLE_then_iff_or, Nat.compare_eq_lt,
    Nat.compare_eq_eq, Nat.isLE_compare]

/-- Versions are equal iff their three numbers are. -/
theorem eq_iff {a b : Version} :
    a = b ↔ a.major.toNat = b.major.toNat ∧ a.minor.toNat = b.minor.toNat ∧
      a.patch.toNat = b.patch.toNat := by
  cases a
  cases b
  simp only [mk.injEq, UInt64.toNat_inj]

theorem compare_eq_eq {a b : Version} : a.compare b = .eq ↔ a = b := by
  simp only [compare, compare_word, Ordering.then_eq_eq, Nat.compare_eq_eq, eq_iff]

/-- A version compares as greater iff the other one is smaller. -/
theorem compare_eq_gt {a b : Version} : a.compare b = .gt ↔ b < a := by
  rw [lt_iff]
  simp only [compare, compare_word, Ordering.then_eq_gt, Nat.compare_eq_gt, Nat.compare_eq_eq]
  omega

/-! ## The linear order -/

instance : LinearOrder Version where
  le_refl a := by rw [le_iff]; omega
  le_trans a b c hab hbc := by rw [le_iff] at hab hbc ⊢; omega
  le_antisymm a b hab hba := by rw [le_iff] at hab hba; rw [eq_iff]; omega
  lt_iff_le_not_ge a b := by rw [lt_iff, le_iff, le_iff]; omega
  le_total a b := by rw [le_iff, le_iff]; omega
  toDecidableLE a b := inferInstanceAs (Decidable ((a.compare b).isLE = true))
  toDecidableLT a b := inferInstanceAs (Decidable (a.compare b = .lt))
  toDecidableEq := inferInstance
  compare := compare
  compare_eq_compareOfLessAndEq a b := by
    rw [compareOfLessAndEq]
    split
    case isTrue h => exact h
    case isFalse h =>
      split
      case isTrue heq => exact compare_eq_eq.mpr heq
      case isFalse hne =>
        rw [eq_iff] at hne
        rw [lt_iff] at h
        exact compare_eq_gt.mpr (lt_iff.mpr (by omega))

end ReleaseMatrix.Version

namespace ReleaseMatrix.Operator

/-! ## Operators -/

/-- The relation that an operator stands for. -/
def relation : Operator → Version → Version → Prop
  | equal, a, b => a = b
  | notEqual, a, b => a ≠ b
  | less, a, b => a < b
  | lessOrEqual, a, b => a ≤ b
  | greater, a, b => b < a
  | greaterOrEqual, a, b => b ≤ a

/-- **A comparison lets a candidate through iff the candidate is so related to the bound.** -/
theorem holds_iff (op : Operator) (a b : Version) : op.holds a b = true ↔ op.relation a b := by
  cases op with
  | equal => exact Ordering.isEq_iff_eq_eq.trans Version.compare_eq_eq
  | notEqual => exact Ordering.isNe_iff_ne_eq.trans (not_congr Version.compare_eq_eq)
  | less => exact Ordering.isLT_iff_eq_lt
  | lessOrEqual => exact Iff.rfl
  | greater => exact Ordering.isGT_iff_eq_gt.trans Version.compare_eq_gt
  | greaterOrEqual => exact Ordering.isGE_iff_ne_lt.trans (not_lt : ¬ a < b ↔ b ≤ a)

end ReleaseMatrix.Operator
