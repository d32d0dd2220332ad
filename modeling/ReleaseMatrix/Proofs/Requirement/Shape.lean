/-
  The tree of a requirement — how deep it is, and what stands in its leaves.

  Three layers call `combine`, one above the other, and each adds at most one level of groups:

      token         8.1   as   [>= 8.1.0 < 8.2.0]                       1
      clause        all of its tokens                                   2
      requirement   any of its clauses                                  3

  At each layer a part that admits everything or nothing is absorbed, so in the end such a leaf is
  the whole tree or occurs nowhere in it.  The bounds are floors of literals and the first versions
  past these, so their numbers are numbers of at most 16 digits or one more than such a number.

  1. **Bounds** — `Literal.Bounded.isSmall_floor` and its companions.
  2. **Layers** — `Token.reduced_constraint`, `Clause.reduced_constraint`,
     `Requirement.reduced_constraint`.
  3. **Requirements** — `isNormal_ofText`.
-/
import ReleaseMatrix.Proofs.Constraint.Shape
import ReleaseMatrix.Proofs.Requirement.Line

namespace ReleaseMatrix

open Constraint (Reduced reduced_anything reduced_nothing reduced_bound reduced_combine)

/-! ## Bounds -/

namespace Version

/-- No number is greater than 10^16. -/
def IsSmall (v : Version) : Prop := ∀ n ∈ v.numbers, n.toNat ≤ 10 ^ maxDigits

theorem isSmall_mk {a b c : UInt64} : (⟨a, b, c⟩ : Version).IsSmall ↔
    a.toNat ≤ 10 ^ maxDigits ∧ b.toNat ≤ 10 ^ maxDigits ∧ c.toNat ≤ 10 ^ maxDigits := by
  simp [IsSmall, numbers]

/-- Counting up a number of at most 16 digits gives no more than 10^16. -/
theorem toNat_bump_le {n : UInt64} (h : n.toNat < 10 ^ maxDigits) :
    (bump n).toNat ≤ 10 ^ maxDigits := by
  rw [maxDigits] at h ⊢
  rw [toNat_bump (by omega)]
  omega

end Version

namespace Literal

variable {l : Literal}

/-- The numbers of a floor are given, or zero. -/
theorem Bounded.toNat_lt_of_mem_floor (h : l.Bounded) {n : UInt64} (hn : n ∈ l.floor.numbers) :
    n.toNat < 10 ^ Version.maxDigits := by
  rcases mem_numbers_of_mem_floor hn with hgiven | rfl
  · exact h n hgiven
  · decide

/-- The three numbers of the floor, and what they are when counted up. -/
theorem Bounded.toNat_floor (h : l.Bounded) :
    ∀ n ∈ l.floor.numbers, n.toNat ≤ 10 ^ Version.maxDigits ∧
      (Version.bump n).toNat ≤ 10 ^ Version.maxDigits := fun _ hn =>
  ⟨le_of_lt (h.toNat_lt_of_mem_floor hn), Version.toNat_bump_le (h.toNat_lt_of_mem_floor hn)⟩

theorem Bounded.isSmall_floor (h : l.Bounded) : l.floor.IsSmall := fun n hn =>
  (h.toNat_floor n hn).1

/-- The first versions past the major, the minor and the patch of the floor. -/
theorem Bounded.isSmall_next (h : l.Bounded) :
    l.floor.nextMajor.IsSmall ∧ l.floor.nextMinor.IsSmall ∧ l.floor.nextPatch.IsSmall := by
  have hfloor := h.toNat_floor
  simp only [Version.numbers, List.forall_mem_cons, List.not_mem_nil, false_imp_iff,
    implies_true, and_true] at hfloor
  simp only [Version.nextMajor, Version.nextMinor, Version.nextPatch, Version.isSmall_mk,
    UInt64.toNat_zero, Nat.zero_le, and_true]
  exact ⟨hfloor.1.2, ⟨hfloor.1.1, hfloor.2.1.2⟩, hfloor.1.1, hfloor.2.1.1, hfloor.2.2.2⟩

/-- So is the first version past it. -/
theorem Bounded.isSmall_ceiling (h : l.Bounded) : l.ceiling.IsSmall := by
  obtain ⟨hmajor, hminor, hpatch⟩ := h.isSmall_next
  cases l with
  | any | major => exact hmajor
  | minor => exact hminor
  | patch => exact hpatch

/-- So is the end of a caret range, whichever number it counts up. -/
theorem Bounded.isSmall_caretEnd (h : l.Bounded) : l.caretEnd.IsSmall := by
  obtain ⟨hmajor, hminor, hpatch⟩ := h.isSmall_next
  unfold caretEnd
  split
  case h_1 | h_2 => exact hmajor
  case h_3 =>
    split
    · exact hminor
    · exact hmajor
  case h_4 =>
    split
    · split
      · exact hpatch
      · exact hminor
    · exact hmajor

/-! ## Tokens -/

section

variable {p : Version → Prop}

/-- A range is a group of its bounds, or less than that. -/
theorem reduced_between {low : Option Version} {high : Option (Operator × Version)}
    (hlow : ∀ v ∈ low, p v) (hhigh : ∀ q ∈ high, p q.2) : Reduced p 1 (between low high) := by
  obtain ⟨members, hmembers, hbounds⟩ := exists_members_between low high
  rw [hmembers]
  refine reduced_combine .all fun c hc => ?_
  rcases hbounds c hc with ⟨v, hv, rfl⟩ | ⟨q, hq, rfl⟩
  · exact reduced_bound (hlow v hv) 0 _
  · exact reduced_bound (hhigh q hq) 0 _

/-- The range from one version up to another is one. -/
theorem reduced_interval {low high : Version} (hlow : p low) (hhigh : p high) :
    Reduced p 1 (interval low high) := by
  refine reduced_between (fun v hv => ?_) fun q hq => ?_
  · exact Option.mem_some.mp hv ▸ hlow
  · exact Option.mem_some.mp hq ▸ hhigh

end

/-- A comparison is one bound, or a group of two. -/
theorem reduced_compared (h : l.Bounded) (op : Operator) :
    Reduced Version.IsSmall 1 (l.compared op) := by
  have hfloor := h.isSmall_floor
  have hceiling := h.isSmall_ceiling
  -- what is outside of the literal's line lies below its floor or past its ceiling
  have houtside : Reduced Version.IsSmall 1
      (Constraint.combine .any [.bound .less l.floor, .bound .greaterOrEqual l.ceiling]) := by
    refine reduced_combine .any ?_
    simp only [List.forall_mem_cons, List.not_mem_nil, false_imp_iff, implies_true, and_true]
    exact ⟨reduced_bound hfloor 0 _, reduced_bound hceiling 0 _⟩
  cases l with
  | any =>
    cases op with
    | equal | greaterOrEqual | lessOrEqual => exact reduced_anything 1
    | notEqual | less | greater => exact reduced_nothing 1
  | patch => exact reduced_bound hfloor 1 op
  | major | minor =>
    cases op with
    | equal => exact reduced_interval hfloor hceiling
    | notEqual => exact houtside
    | greater | lessOrEqual => exact reduced_bound hceiling 1 _
    | greaterOrEqual | less => exact reduced_bound hfloor 1 _

/-- A tilde range is an interval, unless it admits everything. -/
theorem reduced_tilde (h : l.Bounded) : Reduced Version.IsSmall 1 l.tilde := by
  obtain ⟨hmajor, hminor, -⟩ := h.isSmall_next
  cases l with
  | any => exact reduced_anything 1
  | major => exact reduced_interval h.isSmall_floor hmajor
  | minor | patch => exact reduced_interval h.isSmall_floor hminor

/-- So is a caret range. -/
theorem reduced_caret (h : l.Bounded) : Reduced Version.IsSmall 1 l.caret := by
  cases l with
  | any => exact reduced_anything 1
  | major | minor | patch => exact reduced_interval h.isSmall_floor h.isSmall_caretEnd

/-- A hyphen range has the bounds that its sides give. -/
theorem reduced_hyphen {k : Literal} (hl : l.Bounded) (hk : k.Bounded) :
    Reduced Version.IsSmall 1 (l.hyphen k) := by
  refine reduced_between (fun v hv => ?_) fun q hq => ?_
  · -- below: a wildcard bounds nothing, any other literal bounds by its floor
    split at hv
    · cases hv
    · exact Option.mem_some.mp hv ▸ hl.isSmall_floor
  · -- above: a complete literal is included, a shorter one up to its ceiling
    split at hq
    · cases hq
    · exact Option.mem_some.mp hq ▸ hk.isSmall_floor
    · exact Option.mem_some.mp hq ▸ hk.isSmall_ceiling
    · exact Option.mem_some.mp hq ▸ hk.isSmall_ceiling

end Literal

/-- What a sign makes of a literal has no groups within groups. -/
theorem Sign.reduced_constraint? {sign : Sign} {l : Literal} {c : Constraint}
    (h : sign.constraint? l = some c) (hbounded : l.Bounded) : Reduced Version.IsSmall 1 c := by
  cases sign with
  | compare op => exact Option.some.inj h ▸ Literal.reduced_compared hbounded op
  | tilde => exact Option.some.inj h ▸ Literal.reduced_tilde hbounded
  | caret => exact Option.some.inj h ▸ Literal.reduced_caret hbounded
  | tildeArrow => cases h

namespace Clause

/-- **A token is a bound, a group of bounds, or a leaf that decides.** -/
theorem Token.reduced_constraint (t : Token) : Reduced Version.IsSmall 1 t.constraint := by
  unfold Token.constraint
  refine Reduced.relabel ?_ _
  split
  case h_1 c hread =>
    cases t with
    | atom =>
      -- an atom is a sign and a literal, whose numbers are bounded since it was read
      obtain ⟨l, hl, hsign⟩ := Token.readAtom_eq_ok_iff.mp hread
      exact Sign.reduced_constraint? hsign (Literal.bounded_of_read? hl)
    | range =>
      obtain ⟨l, k, hl, hk, rfl⟩ := Token.of_readRange hread
      exact Literal.reduced_hyphen (Literal.bounded_of_read? hl) (Literal.bounded_of_read? hk)
    | openRange => cases hread
  case h_2 => exact reduced_nothing 1

/-- A token with a problem admits nothing. -/
theorem Token.isNone_of_problem {t : Token} (h : t.problem? ≠ none) :
    t.constraint.isNone = true := by
  cases hread : t.read with
  | ok c => exact absurd (Token.problem?_eq_none_iff.mpr ⟨c, hread⟩) h
  | error => rw [Token.constraint, hread, Constraint.isNone_relabel]; rfl

/-! ## Clauses -/

/-- A clause adds one level of groups to its tokens. -/
theorem reduced_constraint (clause : List Char) :
    Reduced Version.IsSmall 2 (constraint clause) := by
  unfold constraint
  split
  case h_1 => exact reduced_nothing 2
  case h_2 =>
    refine reduced_combine .all fun c hc => ?_
    obtain ⟨t, -, rfl⟩ := List.mem_map.mp hc
    exact t.reduced_constraint

/-- A clause with a problem is the leaf that admits nothing. -/
theorem constraint_eq_nothing_of_problems {whole : String} {clause : List Char}
    (h : problems whole clause ≠ []) : constraint clause = Constraint.nothing := by
  unfold constraint
  split
  case h_1 => rfl
  case h_2 hsome =>
    -- some token has a problem, and it absorbs all others
    obtain ⟨t, ht, hproblem⟩ := exists_of_problems h hsome
    exact Constraint.combine_all_eq_nothing (List.mem_map_of_mem ht)
      (Token.isNone_of_problem hproblem)

end Clause

namespace Requirement

open Clause

/-! ## Requirements -/

/-- A requirement adds one to its clauses, and a label, which changes nothing. -/
theorem reduced_constraint (text : String) :
    Reduced Version.IsSmall 3 (ofText text).constraint := by
  by_cases hblank : IsBlank text
  · rw [ofText_of_isBlank hblank]
    exact .inl rfl
  · rw [constraint_ofText hblank]
    refine (reduced_combine .any fun c hc => ?_).relabel _
    obtain ⟨clause, -, rfl⟩ := List.mem_map.mp hc
    exact Clause.reduced_constraint clause

/-- **The tree of a requirement is in normal form**, whatever its text: leaves that admit everything
or nothing are found at the root only, groups have at least two members and nest at most three
deep, and no number of a bound is greater than 10^16.  If each of its clauses is complained of, the
tree of a requirement is the leaf that admits nothing. -/
theorem isNormal_ofText (text : String) :
    (ofText text).constraint.IsNormal Version.IsSmall 3 ∧
    (¬ IsBlank text →
      (∀ clause ∈ alternatives text.toList, Clause.problems (trimmed text) clause ≠ []) →
      (ofText text).constraint = .none (some text)) := by
  refine ⟨(reduced_constraint text).isNormal, fun hblank hproblems => ?_⟩
  have hne : (alternatives text.toList).map Clause.constraint ≠ [] := by
    rw [Ne, List.map_eq_nil_iff]
    exact alternatives_ne_nil _
  have hnothing : ∀ c ∈ (alternatives text.toList).map Clause.constraint, c.isNone = true := by
    intro c hc
    obtain ⟨clause, hmem, rfl⟩ := List.mem_map.mp hc
    rw [constraint_eq_nothing_of_problems (hproblems clause hmem)]
    rfl
  rw [constraint_ofText hblank, Constraint.combine_any_eq_nothing hne hnothing]
  rfl

/-- A good atom next to a word, a range without an end, and a comma: nothing is left of the three. -/
theorem isNormal_ofText_malformed :
    ¬ IsBlank "!=8.1 foo || 8 - | ," ∧
    (∀ clause ∈ alternatives "!=8.1 foo || 8 - | ,".toList,
      Clause.problems (trimmed "!=8.1 foo || 8 - | ,") clause ≠ []) ∧
    (ofText "!=8.1 foo || 8 - | ,").constraint = .none (some "!=8.1 foo || 8 - | ,") := by
  have hblank : ¬ IsBlank "!=8.1 foo || 8 - | ," :=
    fun h => absurd (h 'f' (by decide)) (by decide)
  have hproblems : ∀ clause ∈ alternatives "!=8.1 foo || 8 - | ,".toList,
      Clause.problems (trimmed "!=8.1 foo || 8 - | ,") clause ≠ [] := by
    decide +kernel
  exact ⟨hblank, hproblems, (isNormal_ofText _).2 hblank hproblems⟩

/-- Three levels are reached: either side of a minor line, in a clause, among alternatives. -/
example : (ofText "!=8.1 >7 || 9").text =
    "[[[< 8.1.0 || >= 8.2.0] >= 8.0.0] || [>= 9.0.0 < 10.0.0]]" := by
  decide +kernel

end Requirement
end ReleaseMatrix
