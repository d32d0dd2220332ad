/-
  Gaps — with two versions, a requirement without `!=` admits all versions between them.

  Only two things can take a piece out of the middle: bars, since alternatives may lie apart, and
  `!=` (or `<>`), which leaves out the cell of its literal.  All other atoms are read as bounds that
  must hold together, and each of these bounds is an interval without a gap:

      =  v            v         <  v   before v         >  v   past v
      ≥  v            v, past v          ≤  v   before v, v

  A conjunction of gapless conditions is gapless, so this goes up from bounds to atoms, from these
  to clauses, and a requirement without bars is one clause.  What cannot be read admits nothing,
  which has no gap either.

  1. **Constraints** — `Gapless`, `gapless_bound`, `gapless_combine_all`.
  2. **Atoms** — `Sign.gapless_constraint?`, for every sign but the two that exclude.
  3. **Requirements** — `gapless_ofText`.
-/
import Mathlib.Order.Interval.Set.OrdConnected
import ReleaseMatrix.Proofs.Requirement.Atom

namespace ReleaseMatrix

/-! ## Constraints -/

namespace Constraint

/-- With two versions, all versions between them are admitted. -/
def Gapless (c : Constraint) : Prop := {v | c.admits v = true}.OrdConnected

theorem gapless_anything : Gapless anything := by
  simpa [Gapless] using Set.ordConnected_univ

theorem gapless_nothing : Gapless nothing := by
  simpa [Gapless] using Set.ordConnected_empty

/-- Every comparison but one asks for a version, or for those on one side of it. -/
theorem gapless_bound {op : Operator} (hop : op ≠ .notEqual) (b : Version) :
    Gapless (bound op b) := by
  simp only [Gapless, admits_bound, Operator.holds_iff]
  cases op with
  | equal => exact Set.ordConnected_singleton
  | notEqual => exact absurd rfl hop
  | less => exact Set.ordConnected_Iio
  | lessOrEqual => exact Set.ordConnected_Iic
  | greater => exact Set.ordConnected_Ioi
  | greaterOrEqual => exact Set.ordConnected_Ici

theorem Gapless.relabel {c : Constraint} (h : Gapless c) (label : Option String) :
    Gapless (c.relabel label) := by
  simpa [Gapless] using h

/-- **What gapless conditions have in common is gapless.** -/
theorem gapless_combine_all {members : List Constraint} (h : ∀ c ∈ members, Gapless c) :
    Gapless (combine .all members) := by
  have hcommon : {v | (combine .all members).admits v = true} =
      ⋂ c ∈ members, {v | c.admits v = true} := by
    ext v
    simp [admits_combine_all]
  rw [Gapless, hcommon]
  exact Set.ordConnected_biInter h

end Constraint

open Constraint (Gapless gapless_anything gapless_nothing gapless_bound gapless_combine_all)

/-! ## Atoms -/

namespace Literal

/-- A range has no gap if its upper bound does not exclude. -/
theorem gapless_between (low : Option Version) {high : Option (Operator × Version)}
    (hhigh : ∀ q ∈ high, q.1 ≠ .notEqual) : Gapless (between low high) := by
  obtain ⟨members, hmembers, hbounds⟩ := exists_members_between low high
  rw [hmembers]
  refine gapless_combine_all fun c hc => ?_
  rcases hbounds c hc with ⟨v, -, rfl⟩ | ⟨q, hq, rfl⟩
  · exact gapless_bound (by decide) v
  · exact gapless_bound (hhigh q hq) q.2

/-- The versions from one up to another have none. -/
theorem gapless_interval (low high : Version) : Gapless (interval low high) :=
  gapless_between _ fun q hq => by
    obtain rfl := Option.mem_some.mp hq
    simp

/-- Of the comparisons with a literal, only `!=` leaves something out of the middle. -/
theorem gapless_compared (l : Literal) {op : Operator} (hop : op ≠ .notEqual) :
    Gapless (l.compared op) := by
  cases l with
  | any =>
    cases op with
    | equal | greaterOrEqual | lessOrEqual => exact gapless_anything
    | notEqual | less | greater => exact gapless_nothing
  | patch => exact gapless_bound hop _
  | major | minor =>
    cases op with
    | equal => exact gapless_interval _ _
    | notEqual => exact absurd rfl hop
    | less | lessOrEqual | greater | greaterOrEqual => exact gapless_bound (by decide) _

theorem gapless_tilde (l : Literal) : Gapless l.tilde := by
  cases l with
  | any => exact gapless_anything
  | major | minor | patch => exact gapless_interval _ _

theorem gapless_caret (l : Literal) : Gapless l.caret := by
  cases l with
  | any => exact gapless_anything
  | major | minor | patch => exact gapless_interval _ _

/-- A hyphen range has no gap: its upper bound is included, or not reached. -/
theorem gapless_hyphen (low high : Literal) : Gapless (low.hyphen high) := by
  refine gapless_between _ fun q hq => ?_
  cases high with
  | any => cases hq
  | patch | major | minor =>
    obtain rfl := Option.mem_some.mp hq
    simp

end Literal

namespace Sign

/-- **Every sign but `!=` makes a gapless condition of a literal.** -/
theorem gapless_constraint? {sign : Sign} {l : Literal} {c : Constraint}
    (h : sign.constraint? l = some c) (hsign : sign ≠ .compare .notEqual) : Gapless c := by
  cases sign with
  | compare op =>
    obtain rfl := Option.some.inj h
    exact l.gapless_compared fun hop => hsign (congrArg Sign.compare hop)
  | tilde => exact Option.some.inj h ▸ l.gapless_tilde
  | caret => exact Option.some.inj h ▸ l.gapless_caret
  | tildeArrow => cases h

/-- The text begins with `!=` or `<>`. -/
def Excludes (cs : List Char) : Prop := "!=".toList <+: cs ∨ "<>".toList <+: cs

/-- The two spellings are the only ones of their sign. -/
theorem excludes_of_split {cs : List Char} (h : (split cs).1 = .compare .notEqual) :
    Excludes cs := by
  obtain ⟨spelling, hmem, hcs⟩ := exists_spelling cs
  rw [h] at hmem
  have hspelling : spelling = "!=" ∨ spelling = "<>" := by
    simpa [spellings] using hmem
  rw [hcs]
  rcases hspelling with rfl | rfl
  · exact .inl (List.prefix_append _ _)
  · exact .inr (List.prefix_append _ _)

end Sign

/-- What is left of an atom is the front of it. -/
theorem Stability.drop_prefix (cs : List Char) : drop cs <+: cs := by
  induction cs with
  | nil => exact List.nil_prefix
  | cons c rest ih =>
    rw [drop]
    split
    · exact List.nil_prefix
    · exact List.cons_prefix_cons.mpr ⟨rfl, ih⟩

/-! ## Requirements -/

namespace Clause

/-- No atom of the clause begins with a sign that excludes. -/
def ExcludesNothing (clause : List Char) : Prop :=
  ∀ atom, Token.atom atom ∈ tokens clause → ¬ Sign.Excludes atom

/-- A token that does not begin with `!=` or `<>` is gapless. -/
theorem Token.gapless_constraint {t : Token} (h : ∀ atom, t = .atom atom → ¬ Sign.Excludes atom) :
    Gapless t.constraint := by
  unfold Token.constraint
  refine Gapless.relabel ?_ _
  split
  case h_1 c hread =>
    cases t with
    | atom text =>
      obtain ⟨l, -, hsign⟩ := Token.readAtom_eq_ok_iff.mp hread
      refine Sign.gapless_constraint? hsign fun hexcludes => ?_
      by_cases hflag : Stability.drop text = []
      · -- an atom that is only a flag is read as it stands, and begins with no sign
        rw [Token.body_of_eq_nil hflag] at hexcludes
        cases hexcludes
      · -- a sign at the start of what the flag leaves is at the start of the atom
        rw [Token.body_of_ne_nil hflag] at hexcludes
        have hprefix := Stability.drop_prefix text
        exact h text rfl ((Sign.excludes_of_split hexcludes).imp
          (List.IsPrefix.trans · hprefix) (List.IsPrefix.trans · hprefix))
    | range =>
      obtain ⟨l, k, -, -, rfl⟩ := Token.of_readRange hread
      exact l.gapless_hyphen k
    | openRange => cases hread
  case h_2 => exact gapless_nothing

/-- What a clause asks for all at once is gapless if each of its tokens is. -/
theorem gapless_constraint {clause : List Char} (h : ExcludesNothing clause) :
    Gapless (constraint clause) := by
  unfold constraint
  split
  case h_1 => exact gapless_nothing
  case h_2 =>
    refine gapless_combine_all fun c hc => ?_
    obtain ⟨t, ht, rfl⟩ := List.mem_map.mp hc
    exact Token.gapless_constraint fun atom hatom => h atom (hatom ▸ ht)

end Clause

/-- **A requirement without bars and exclusions has no gap.** -/
theorem Requirement.gapless_ofText {text : String} (hbar : '|' ∉ text.toList)
    (h : Clause.ExcludesNothing text.toList) : Gapless (ofText text).constraint := by
  by_cases hblank : IsBlank text
  · rw [ofText_of_isBlank hblank]
    exact gapless_anything.relabel (some text)
  · have hclause (v : Version) :
        (ofText text).constraint.admits v = (Clause.constraint text.toList).admits v :=
      admits_ofText_barless hblank hbar v
    -- without bars there is one clause, the whole text
    simpa only [Gapless, hclause] using Clause.gapless_constraint h

end ReleaseMatrix
