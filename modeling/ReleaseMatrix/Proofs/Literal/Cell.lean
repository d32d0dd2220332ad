/-
  Cells — the versions that a literal stands for, and what a comparison with it asks.

  The *cell* of a literal is the set of the versions that agree with the numbers it gives.  It is an
  interval, from `floor` to `last`:

      8.1      8.1.0  …  8.1.max
      8        8.0.0  …  8.max.max
      *        0.0.0  …  max.max.max

  A comparison operator in front of a literal compares a candidate with the cell as a whole:
  `=` asks for a member, `>` for a version past all members, `>=` for one that has a member at or
  before it.  The bounds that are put down instead speak of `floor` and of `ceiling`, the first
  version past the cell.  That is the same thing because a number of at most 16 digits has a
  successor among the words (`lt_ceiling_iff`); where the increment saturated, `8.max < 8.ceiling`
  would fail.

  1. **The cell is an interval** — `cell_iff`, `lt_ceiling_iff`.
  2. **Comparisons** — `admits_compared`: the constraint of an operator and a literal admits the
     versions that are so related to the cell.
-/
import Mathlib.Logic.Basic
import ReleaseMatrix.Proofs.Constraint.Meaning
import ReleaseMatrix.Proofs.Literal.Reading
import ReleaseMatrix.Proofs.Version.Order
import ReleaseMatrix.Requirement.Bounds

namespace ReleaseMatrix

/-! ## Greatest versions -/

namespace Version

/-- The greatest word. -/
def greatestWord : UInt64 := 0xFFFFFFFFFFFFFFFF

theorem toNat_le_greatestWord (n : UInt64) : n.toNat ≤ greatestWord.toNat :=
  Nat.le_pred_of_lt n.toNat_lt

/-- Below the greatest word, the successor is the next number. -/
theorem toNat_bump {n : UInt64} (h : n.toNat + 1 < 2 ^ 64) : (bump n).toNat = n.toNat + 1 := by
  have hsize : n.toNat + 1 < UInt64.size := h
  rw [bump, if_pos hsize, UInt64.toNat_add, UInt64.toNat_one, Nat.mod_eq_of_lt h]

end Version

namespace Literal

/-! ## The cell is an interval -/

/-- The versions that agree with the literal on the numbers that it gives. -/
def Cell : Literal → Version → Prop
  | any, _ => True
  | major a, v => v.major = a
  | minor a b, v => v.major = a ∧ v.minor = b
  | patch a b c, v => v.major = a ∧ v.minor = b ∧ v.patch = c

/-- The greatest version that agrees with the literal. -/
def last : Literal → Version
  | any => ⟨Version.greatestWord, Version.greatestWord, Version.greatestWord⟩
  | major a => ⟨a, Version.greatestWord, Version.greatestWord⟩
  | minor a b => ⟨a, b, Version.greatestWord⟩
  | patch a b c => ⟨a, b, c⟩

/-- **The cell is the interval from `floor` to `last`.** -/
theorem cell_iff (l : Literal) (v : Version) : l.Cell v ↔ l.floor ≤ v ∧ v ≤ l.last := by
  have hminor := Version.toNat_le_greatestWord v.minor
  have hpatch := Version.toNat_le_greatestWord v.patch
  have hmajor := Version.toNat_le_greatestWord v.major
  rw [Version.le_iff, Version.le_iff]
  cases l <;> simp only [Cell, floor, last, ← UInt64.toNat_inj, UInt64.toNat_zero, true_iff] <;>
    omega

theorem cell_floor (l : Literal) : l.Cell l.floor := by
  cases l <;> simp [Cell, floor]

theorem cell_last (l : Literal) : l.Cell l.last := by
  cases l <;> simp [Cell, last]

/-- A number of a bounded literal has a successor. -/
theorem Bounded.toNat_bump {l : Literal} (h : l.Bounded) {n : UInt64} (hn : n ∈ l.numbers) :
    (Version.bump n).toNat = n.toNat + 1 := by
  have hlt := h n hn
  rw [Version.maxDigits] at hlt
  exact Version.toNat_bump (by omega)

/-- **The ceiling is the first version past the cell**: no increment saturates. -/
theorem lt_ceiling_iff {l : Literal} (hbounded : l.Bounded) (hany : l.isAny = false)
    (v : Version) : v < l.ceiling ↔ v ≤ l.last := by
  have hminor := Version.toNat_le_greatestWord v.minor
  have hpatch := Version.toNat_le_greatestWord v.patch
  rw [Version.lt_iff, Version.le_iff]
  cases l with
  | any => exact absurd hany (by decide)
  | major a =>
    have hbump := hbounded.toNat_bump (n := a) (by simp [numbers])
    simp only [ceiling, floor, last, Version.nextMajor, UInt64.toNat_zero]
    omega
  | minor a b =>
    have hbump := hbounded.toNat_bump (n := b) (by simp [numbers])
    simp only [ceiling, floor, last, Version.nextMinor, UInt64.toNat_zero]
    omega
  | patch a b c =>
    have hbump := hbounded.toNat_bump (n := c) (by simp [numbers])
    simp only [ceiling, floor, last, Version.nextPatch]
    omega

/-- An interval asks for its bounds, as far as it has any. -/
theorem exists_members_between (low : Option Version) (high : Option (Operator × Version)) :
    ∃ members, between low high = Constraint.combine .all members ∧
      ∀ c ∈ members, (∃ v ∈ low, c = Constraint.bound .greaterOrEqual v) ∨
        ∃ q ∈ high, c = Constraint.bound q.1 q.2 := by
  refine ⟨_, rfl, fun c hc => ?_⟩
  rcases List.mem_append.mp hc with hc | hc
  · obtain ⟨v, hv, rfl⟩ := Option.map_eq_some_iff.mp (Option.mem_toList.mp hc)
    exact .inl ⟨v, hv, rfl⟩
  · obtain ⟨q, hq, rfl⟩ := Option.map_eq_some_iff.mp (Option.mem_toList.mp hc)
    exact .inr ⟨q, hq, rfl⟩

end Literal

/-! ## Comparisons with a set -/

namespace Operator

/-- What an operator asks of a candidate when it is compared with a set of versions as a whole. -/
def RelatesTo : Operator → (Version → Prop) → Version → Prop
  | equal, s, v => s v
  | notEqual, s, v => ¬ s v
  | less, s, v => ∀ w, s w → v < w
  | lessOrEqual, s, v => ∃ w, s w ∧ v ≤ w
  | greater, s, v => ∀ w, s w → w < v
  | greaterOrEqual, s, v => ∃ w, s w ∧ w ≤ v

/-- The same for the set of the versions from `low` to `high`. -/
def RelatesToInterval : Operator → Version → Version → Version → Prop
  | equal, low, high, v => low ≤ v ∧ v ≤ high
  | notEqual, low, high, v => v < low ∨ high < v
  | less, low, _, v => v < low
  | lessOrEqual, _, high, v => v ≤ high
  | greater, _, high, v => high < v
  | greaterOrEqual, low, _, v => low ≤ v

/-- The operators that relate a version to itself. -/
def reflexive : List Operator := [equal, greaterOrEqual, lessOrEqual]

end Operator

namespace Literal

/-- Comparing with a cell is comparing with its two ends. -/
theorem relatesTo_cell_iff (op : Operator) (l : Literal) (v : Version) :
    op.RelatesTo l.Cell v ↔ op.RelatesToInterval l.floor l.last v := by
  -- the ends of a cell are in it, so what holds of all or some of it can be asked of them
  have hends (w : Version) (hw : l.Cell w) : l.floor ≤ w ∧ w ≤ l.last := (cell_iff l w).mp hw
  cases op with
  | equal => exact cell_iff l v
  | notEqual =>
    show ¬ l.Cell v ↔ v < l.floor ∨ l.last < v
    rw [cell_iff, not_and_or, not_le, not_le]
  | less =>
    constructor
    · exact fun h => h l.floor l.cell_floor
    · exact fun h w hw => lt_of_lt_of_le h (hends w hw).1
  | lessOrEqual =>
    constructor
    · rintro ⟨w, hw, hle⟩
      exact le_trans hle (hends w hw).2
    · exact fun h => ⟨l.last, l.cell_last, h⟩
  | greater =>
    constructor
    · exact fun h => h l.last l.cell_last
    · exact fun h w hw => lt_of_le_of_lt (hends w hw).2 h
  | greaterOrEqual =>
    constructor
    · rintro ⟨w, hw, hle⟩
      exact le_trans (hends w hw).1 hle
    · exact fun h => ⟨l.floor, l.cell_floor, h⟩

/-- Compared with all versions, a version meets the reflexive operators and no other. -/
theorem relatesTo_any_iff (op : Operator) (v : Version) :
    op.RelatesTo any.Cell v ↔ op ∈ Operator.reflexive := by
  cases op with
  | equal => exact iff_of_true trivial (by decide)
  | greaterOrEqual | lessOrEqual => exact iff_of_true ⟨v, trivial, le_refl v⟩ (by decide)
  | notEqual => exact iff_of_false (fun h => h trivial) (by decide)
  | less | greater => exact iff_of_false (fun h => lt_irrefl v (h v trivial)) (by decide)

/-! ## The bounds that are put down -/

@[simp] theorem admits_interval (low high v : Version) :
    (interval low high).admits v = true ↔ low ≤ v ∧ v < high := by
  simp [interval, between, Constraint.admits_combine_all, Operator.holds_iff, Operator.relation]

/-- A literal that leaves a number open is compared through its floor and its ceiling. -/
theorem admits_compared_open {l : Literal} (hbounded : l.Bounded) (hany : l.isAny = false)
    (hfull : l.full? = none) (op : Operator) (v : Version) :
    (l.compared op).admits v = true ↔ op.RelatesToInterval l.floor l.last v := by
  have hlt : v < l.ceiling ↔ v ≤ l.last := lt_ceiling_iff hbounded hany v
  have hge : l.ceiling ≤ v ↔ l.last < v := by rw [← not_lt, hlt, not_le]
  cases l with
  | any => exact absurd hany (by decide)
  | patch => exact absurd hfull (by simp [full?])
  | major | minor =>
    cases op <;>
      simp [compared, Constraint.admits_combine_any, Operator.holds_iff, Operator.relation,
        Operator.RelatesToInterval, hlt, hge]

/-- **A comparison with a literal admits the versions that are so related to its cell.** -/
theorem admits_compared {l : Literal} (hbounded : l.Bounded) (op : Operator) (v : Version) :
    (l.compared op).admits v = true ↔ op.RelatesTo l.Cell v := by
  rw [relatesTo_cell_iff]
  cases l with
  | any =>
    -- every version lies between the two ends
    obtain ⟨hlow, hhigh⟩ := (cell_iff .any v).mp trivial
    cases op <;> simp [compared, Operator.RelatesToInterval, hlow, hhigh]
  | patch a b c =>
    -- the two ends are one version
    rw [compared, Constraint.admits_bound, Operator.holds_iff]
    show op.relation v ⟨a, b, c⟩ ↔ op.RelatesToInterval ⟨a, b, c⟩ ⟨a, b, c⟩ v
    cases op with
    | equal => exact ⟨fun h => ⟨le_of_eq h.symm, le_of_eq h⟩, fun h => le_antisymm h.2 h.1⟩
    | notEqual => exact ne_iff_lt_or_gt
    | less | lessOrEqual | greater | greaterOrEqual => exact Iff.rfl
  | major => exact admits_compared_open hbounded rfl rfl op v
  | minor => exact admits_compared_open hbounded rfl rfl op v

end Literal
end ReleaseMatrix
