/-
  Two ways to compare — by the versions of two names, or by a requirement written from one of them.

  `Name.compare a op b` compares the versions that `a` and `b` hold.  A requirement can ask the same
  of `a`: a spelling of the operator, and behind it the version of `b` in full:

      compare "php-8.2" ≥ "8.1"      is asked by      >=8.1.0      of      "php-8.2"

  Writing loses nothing, since the version of a name has numbers of at most 16 digits, and a full
  literal stands for the one version that it names, so both ways give the same answer.

  1. **Spellings** — `Operator.mem_spellings_of_read`: what is read as an operator is a sign.
  2. **Full literals** — `Literal.relatesTo_cell_patch_iff`.
  3. **Agreement** — `Name.compare_eq_satisfiedBy`.
-/
import ReleaseMatrix.Comparison
import ReleaseMatrix.Proofs.Requirement.Atom
import ReleaseMatrix.Proofs.Version.Written

namespace ReleaseMatrix

/-! ## Spellings -/

namespace Operator

/-- Every spelling that is read as an operator, the empty one too, is a sign of this operator. -/
theorem mem_spellings_of_read {spelling : String} {op : Operator} (h : read spelling = .ok op) :
    (spelling, Sign.compare op) ∈ Sign.spellings := by
  unfold read at h
  split at h
  case h_10 => cases h
  all_goals
    obtain rfl := Except.ok.inj h
    decide

end Operator

/-! ## Full literals -/

namespace Literal

/-- A full literal stands for one version, so comparing with its cell is comparing with that. -/
theorem relatesTo_cell_patch_iff (op : Operator) (v w : Version) :
    op.RelatesTo (patch w.major w.minor w.patch).Cell v ↔ op.holds v w = true := by
  rw [relatesTo_cell_iff, Operator.holds_iff]
  show op.RelatesToInterval w w v ↔ op.relation v w
  cases op with
  | equal => exact ⟨fun h => le_antisymm h.2 h.1, fun h => ⟨h.ge, h.le⟩⟩
  | notEqual => exact ⟨fun h => h.elim ne_of_lt ne_of_gt, lt_or_gt_of_ne⟩
  | less | lessOrEqual | greater | greaterOrEqual => exact Iff.rfl

end Literal

/-! ## Agreement -/

namespace Requirement

/-- An operator and a written version ask for the versions that compare so with it. -/
theorem means_holds {spelling : String} {op : Operator} {w : Version}
    (hspelling : Operator.read spelling = .ok op)
    (hbounded : (Literal.patch w.major w.minor w.patch).Bounded) :
    Means (spelling ++ w.text) fun v => op.holds v w = true := by
  obtain ⟨hproblems, hadmits⟩ :=
    means_compared (Operator.mem_spellings_of_read hspelling) (Literal.read?_text hbounded)
  exact ⟨hproblems, fun v => (hadmits v).trans (Literal.relatesTo_cell_patch_iff op v w)⟩

end Requirement

namespace Name

/-- **Comparing two names is asking one of them for a requirement that is written from the other.**
If `b` holds a version, every spelling of an operator with that version behind it is read without a
problem, and a name satisfies it iff it compares so with `b`; names without a version do neither.
If `b` holds none, nothing compares with it. -/
theorem compare_eq_satisfiedBy (a b : String) :
    (∀ w, Version.extract? b = some w → ∀ spelling op, Operator.read spelling = .ok op →
      (Requirement.ofText (spelling ++ w.text)).problems = [] ∧
      compare a op b = (Requirement.ofText (spelling ++ w.text)).satisfiedBy a) ∧
    (Version.extract? b = none → ∀ op, compare a op b = false) := by
  constructor
  · intro w hb spelling op hspelling
    obtain ⟨hproblems, hadmits⟩ :=
      Requirement.means_holds hspelling (Version.bounded_of_extract? hb)
    refine ⟨hproblems, ?_⟩
    rw [compare, Requirement.satisfiedBy, hb]
    cases Version.extract? a with
    | none => rfl
    | some v => exact Bool.eq_iff_iff.mpr (hadmits v).symm
  · intro hb op
    rw [compare, hb]
    cases Version.extract? a <;> rfl

/-- The greatest version that a name can hold, behind the spelling of an operator that is not its
canonical one. -/
theorem compare_eq_satisfiedBy_widest :
    let w : Version := ⟨9999999999999999, 9999999999999999, 9999999999999999⟩
    Version.extract? "v9999999999999999.9999999999999999.9999999999999999-dev" = some w ∧
    Operator.read "<>" = .ok .notEqual ∧
    (Requirement.ofText ("<>" ++ w.text)).problems = [] ∧
    compare "php-8.2.1RC1" .notEqual "v9999999999999999.9999999999999999.9999999999999999-dev" =
      (Requirement.ofText ("<>" ++ w.text)).satisfiedBy "php-8.2.1RC1" := by
  intro w
  have hb : Version.extract? "v9999999999999999.9999999999999999.9999999999999999-dev" = some w := by
    unfold w
    decide +kernel
  have hspelling : Operator.read "<>" = .ok .notEqual := rfl
  exact ⟨hb, hspelling, (compare_eq_satisfiedBy "php-8.2.1RC1" _).1 w hb "<>" .notEqual hspelling⟩

end Name
end ReleaseMatrix
