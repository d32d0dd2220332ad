/-
  Simplification — what `combine` makes of its members.

  There are four ways in which members come to one condition:

      decided   one of them settles the group              a leaf
      idle      all of them leave it to the others         a leaf
      given     one of them is left                        that member, as it was
      built     two or more of them are left               a new group of these

  What is left in the last case is neither a leaf that admits everything nor one that admits nothing:
  the one kind is neutral and dropped, the other would have decided.  And a tree is larger than each
  of its members, so the new group is none of the trees that were given (`group_notMem_members`): a
  result that is a group but not a given one was built, and only then.

  1. **Ways** — `Simplified`, and `simplified_combine`.
  2. **Meaning and shape** — `simplification_faithful`, against the group of all members.
-/
import ReleaseMatrix.Proofs.Constraint.Meaning

namespace ReleaseMatrix.Constraint

/-! ## Ways -/

/-- The leaf that a deciding member makes of its group. -/
def Join.settled : Join → Constraint
  | .all => nothing
  | .any => anything

/-- The leaf that says as much as neutral members alone. -/
def Join.unit : Join → Constraint
  | .all => anything
  | .any => nothing

/-- What members, at least one, may come to. -/
inductive Simplified (join : Join) (members : List Constraint) : Constraint → Prop where
  /-- A member settles the group. -/
  | decided {c : Constraint} (hmem : c ∈ members) (hdecides : decides join c = true) :
      Simplified join members (Join.settled join)
  /-- No member says anything. -/
  | idle (hneutral : ∀ c ∈ members, isNeutral join c = true) :
      Simplified join members (Join.unit join)
  /-- One member is left. -/
  | given {c : Constraint} (hmem : c ∈ members) : Simplified join members c
  /-- Two or more are left, in their order. -/
  | built {kept : List Constraint} (hsub : kept.Sublist members) (hlength : 2 ≤ kept.length)
      (hplain : ∀ c ∈ kept, c.isAll = false ∧ c.isNone = false)
      (hnew : group join kept Option.none ∉ members) :
      Simplified join members (group join kept Option.none)

/-- A tree is larger than its members, so no group is one of its own. -/
theorem group_notMem_members (join : Join) (members : List Constraint) (label : Option String) :
    group join members label ∉ members := by
  intro hmem
  have hlt := List.sizeOf_lt_of_mem hmem
  rw [group.sizeOf_spec] at hlt
  omega

/-- Among members none of which decides, one that is not neutral is no leaf of either kind. -/
theorem plain_of_not_neutral {join : Join} {c : Constraint} (hdecides : ¬ decides join c = true)
    (hneutral : isNeutral join c = false) : c.isAll = false ∧ c.isNone = false := by
  cases join with
  | all => exact ⟨hneutral, by simpa [decides] using hdecides⟩
  | any => exact ⟨by simpa [decides] using hdecides, hneutral⟩

/-- **Members come to one condition in one of the four ways.** -/
theorem simplified_combine (join : Join) {members : List Constraint} (hne : members ≠ []) :
    Simplified join members (combine join members) := by
  unfold combine
  split
  case isTrue hdecided =>
    obtain ⟨c, hmem, hdecides⟩ := List.any_eq_true.mp hdecided
    cases join with
    | all => exact .decided hmem hdecides
    | any => exact .decided hmem hdecides
  case isFalse hundecided =>
    have hplain : ∀ c ∈ members.filter (fun c => !isNeutral join c),
        c ∈ members ∧ c.isAll = false ∧ c.isNone = false := by
      intro c hc
      obtain ⟨hmem, hneutral⟩ := List.mem_filter.mp hc
      have hdecides : ¬ decides join c = true := fun hdecides =>
        hundecided (List.any_eq_true.mpr ⟨c, hmem, hdecides⟩)
      exact ⟨hmem, plain_of_not_neutral hdecides (by simpa using hneutral)⟩
    split
    case h_1 hnil =>
      have hidle : Simplified join members (Join.unit join) := by
        refine .idle fun c hc => ?_
        simpa using List.filter_eq_nil_iff.mp hnil c hc
      cases join with
      | all => exact hidle
      | any => simpa [hne, Join.unit] using hidle
    case h_2 c hone => exact .given (hplain c (hone ▸ List.mem_cons_self)).1
    case h_3 hsome hmany =>
      refine .built List.filter_sublist ?_ (fun c hc => (hplain c hc).2) fun hmem => ?_
      · rcases hkept : members.filter fun c => !isNeutral join c with _ | ⟨c, _ | ⟨d, rest⟩⟩
        · exact absurd hkept hsome
        · exact absurd hkept (hmany c)
        · simp
      · -- a given group is left over like any other, and would be a member of itself
        refine group_notMem_members _ _ _ (List.mem_filter.mpr ⟨hmem, ?_⟩)
        cases join <;> rfl

/-! ## Meaning and shape -/

/-- **Simplification is faithful.**  Two or more members can be grouped, and what they come to admits
the versions that the group of all of them admits; one member alone comes to what it is.  If they
come to a group that is none of the given trees, it joins some of them, at least two, in their order
and in the same way, and no member that admits everything or nothing is among these. -/
theorem simplification_faithful (join : Join) (members : List Constraint) :
    (2 ≤ members.length → ∃ whole, groupOf join members = .ok whole ∧
      ∀ v, (combine join members).admits v = whole.admits v) ∧
    (∀ c, members = [c] → ∀ v, (combine join members).admits v = c.admits v) ∧
    ∀ c, combine join members = c → c.isGroup = true → c ∉ members →
      ∃ kept, c = group join kept Option.none ∧ kept.Sublist members ∧ 2 ≤ kept.length ∧
        ∀ d ∈ kept, d.isAll = false ∧ d.isNone = false := by
  refine ⟨fun hlength => ?_, ?_, ?_⟩
  · have hne : members ≠ [] := List.ne_nil_of_length_pos (by omega)
    refine ⟨group join members Option.none, if_neg (by omega), fun v => ?_⟩
    exact admits_combine join hne v
  · rintro c rfl v
    rw [admits_combine join (List.cons_ne_nil c []), admits_group_singleton]
  · intro c hcombine hgroup hnew
    have hne : members ≠ [] := by
      rintro rfl
      rw [← hcombine] at hgroup
      simp [combine, anything, isGroup] at hgroup
    -- only a group that was built anew is no member
    have hways := simplified_combine join hne
    rw [hcombine] at hways
    cases hways with
    | decided => cases join <;> cases hgroup
    | idle => cases join <;> cases hgroup
    | given hmem => exact absurd hmem hnew
    | @built kept hsub hlength hplain => exact ⟨kept, rfl, hsub, hlength, hplain⟩

/-- Of four members one is neutral; a group among the others stays what it is. -/
theorem simplification_faithful_nested :
    let recent := bound .greaterOrEqual ⟨8, 0, 0⟩
    let either := group .any [bound .less ⟨8, 1, 0⟩, anything] Option.none
    let members := [recent, anything, either, recent]
    2 ≤ members.length ∧
    (∃ whole, groupOf .all members = .ok whole ∧
      ∀ v, (combine .all members).admits v = whole.admits v) ∧
    (combine .all [either]).admits ⟨8, 1, 0⟩ = either.admits ⟨8, 1, 0⟩ ∧
    ∃ kept, group .all [recent, either, recent] Option.none = group .all kept Option.none ∧
      kept.Sublist members ∧ 2 ≤ kept.length ∧ ∀ d ∈ kept, d.isAll = false ∧ d.isNone = false := by
  intro recent either members
  have hlength : 2 ≤ members.length := by decide
  have hcombine : combine .all members = group .all [recent, either, recent] Option.none := rfl
  have hnew : group .all [recent, either, recent] Option.none ∉ members := by
    simp [members, recent, either, bound, anything]
  refine ⟨hlength, (simplification_faithful .all members).1 hlength, ?_, ?_⟩
  · exact (simplification_faithful .all [either]).2.1 either rfl _
  · exact (simplification_faithful .all members).2.2 _ hcombine rfl hnew

end ReleaseMatrix.Constraint
