/-
  Simplification keeps the meaning.

  `Constraint.combine` takes three short cuts: a member that decides the group ends it, neutral
  members are dropped, and a single survivor stands for the group.  None of them changes which
  versions are admitted, so what is asked of a combined constraint can be asked of the members:

      combine all  cs  admits v   iff   every member of cs admits v
      combine any  cs  admits v   iff   some member of cs admits v       (cs not empty)

  The second reading fails for no members at all, where `combine` lets everything through.
-/
import ReleaseMatrix.Constraint

namespace ReleaseMatrix.Constraint

/-! ## Leaves and groups -/

theorem admits_of_isAll {c : Constraint} (h : c.isAll = true) (v : Version) :
    c.admits v = true := by
  cases c <;> simp_all [isAll, admits]

theorem admits_of_isNone {c : Constraint} (h : c.isNone = true) (v : Version) :
    c.admits v = false := by
  cases c <;> simp_all [isNone, admits]

@[simp] theorem admits_anything (v : Version) : anything.admits v = true := by
  simp [anything, admits]

@[simp] theorem admits_nothing (v : Version) : nothing.admits v = false := by
  simp [nothing, admits]

@[simp] theorem admits_bound (op : Operator) (b v : Version) :
    (bound op b).admits v = op.holds v b := by
  simp [bound, admits]

@[simp] theorem admits_group_all (members : List Constraint) (label : Option String)
    (v : Version) : (group .all members label).admits v = members.all (·.admits v) := by
  rw [admits, allAdmit_eq]

@[simp] theorem admits_group_any (members : List Constraint) (label : Option String)
    (v : Version) : (group .any members label).admits v = members.any (·.admits v) := by
  rw [admits, anyAdmits_eq]

/-! ## The three short cuts -/

/-- A deciding member: nothing is admitted by all members, everything by one of them. -/
theorem admits_group_of_decides {join : Join} {members : List Constraint}
    (h : members.any (decides join) = true) (label : Option String) (v : Version) :
    (group join members label).admits v = (join == .any) := by
  obtain ⟨c, hc, hdec⟩ := List.any_eq_true.mp h
  cases join with
  | all =>
    rw [admits_group_all]
    exact List.all_eq_false.mpr ⟨c, hc, by simp [admits_of_isNone hdec v]⟩
  | any =>
    rw [admits_group_any]
    exact List.any_eq_true.mpr ⟨c, hc, admits_of_isAll hdec v⟩

/-- Neutral members may be dropped. -/
theorem admits_group_dropNeutral (join : Join) (members : List Constraint)
    (label : Option String) (v : Version) :
    (group join (members.filter fun c => !isNeutral join c) label).admits v =
      (group join members label).admits v := by
  cases join with
  | all =>
    rw [admits_group_all, admits_group_all, List.all_filter]
    congr 1
    funext c
    cases h : c.isAll with
    | true => simp [isNeutral, h, admits_of_isAll h v]
    | false => simp [isNeutral, h]
  | any =>
    rw [admits_group_any, admits_group_any, List.any_filter]
    congr 1
    funext c
    cases h : c.isNone with
    | true => simp [isNeutral, h, admits_of_isNone h v]
    | false => simp [isNeutral, h]

/-- A group of one member asks what the member asks. -/
theorem admits_group_singleton (join : Join) (c : Constraint) (label : Option String)
    (v : Version) : (group join [c] label).admits v = c.admits v := by
  cases join <;> simp

/-- **Simplification keeps the meaning**: members combined admit what their group admits. -/
theorem admits_combine (join : Join) {members : List Constraint} (hne : members ≠ [])
    (v : Version) :
    (combine join members).admits v = (group join members Option.none).admits v := by
  unfold combine
  split
  case isTrue h =>
    rw [admits_group_of_decides h]
    cases join
    · exact admits_nothing v
    · exact admits_anything v
  case isFalse =>
    rw [← admits_group_dropNeutral]
    split
    case h_1 hkept =>
      -- all members were neutral
      rw [hkept]
      cases join <;> simp [hne]
    -- a single survivor stands for the group
    case h_2 c hkept => rw [hkept, admits_group_singleton]
    case h_3 => rfl

/-- What is asked of all combined members; no members ask for nothing. -/
theorem admits_combine_all (members : List Constraint) (v : Version) :
    (combine .all members).admits v = members.all (·.admits v) := by
  cases members with
  | nil => simp [combine]
  | cons c rest => rw [admits_combine .all (List.cons_ne_nil c rest), admits_group_all]

theorem admits_combine_any {members : List Constraint} (hne : members ≠ []) (v : Version) :
    (combine .any members).admits v = members.any (·.admits v) := by
  rw [admits_combine .any hne, admits_group_any]

end ReleaseMatrix.Constraint
