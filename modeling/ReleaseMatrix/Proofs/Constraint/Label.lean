/-
  Labels — trees that differ in nothing else.

  A label quotes what a node was read from, so two requirements that come to the same condition in
  different words differ in their labels.  `bare` takes all labels off, at every depth:

      8.1 - 8.4          [>= 8.1.0 < 8.5.0]        labelled  "8.1 - 8.4"
      >=8.1 <=8.4        [>= 8.1.0 < 8.5.0]        labelled  ">=8.1 <=8.4", ">=8.1", "<=8.4"

  Trees with one bare tree have one normal text (`text_bare`) and admit the same versions
  (`admits_bare`), and it makes no difference whether labels are taken off before or after members
  are combined (`bare_combine`).
-/
import ReleaseMatrix.Proofs.Constraint.Meaning

namespace ReleaseMatrix.Constraint

/-! ## Bare trees -/

mutual

/-- The tree without any labels. -/
def bare : Constraint → Constraint
  | .all _ => anything
  | .none _ => nothing
  | .compare op v _ => bound op v
  | .group join members _ => .group join (bareMembers members) Option.none

/-- Trees without any labels. -/
def bareMembers : List Constraint → List Constraint
  | [] => []
  | c :: rest => c.bare :: bareMembers rest

end

/-- Labels are taken off each member. -/
theorem bareMembers_eq (members : List Constraint) : bareMembers members = members.map bare := by
  induction members with
  | nil => rfl
  | cons c rest ih => rw [bareMembers, ih, List.map_cons]

@[simp] theorem bare_relabel (c : Constraint) (label : Option String) :
    (c.relabel label).bare = c.bare := by
  cases c <;> simp [relabel, bare]

@[simp] theorem isAll_bare (c : Constraint) : c.bare.isAll = c.isAll := by
  cases c <;> simp [bare, isAll, anything, nothing, bound]

@[simp] theorem isNone_bare (c : Constraint) : c.bare.isNone = c.isNone := by
  cases c <;> simp [bare, isNone, anything, nothing, bound]

/-! ## What labels leave alone -/

mutual

/-- **Labels are no part of the normal text**, by recursion on the tree. -/
theorem text_bare : (c : Constraint) → c.bare.text = c.text
  | .all _ => by simp [bare, anything, text]
  | .none _ => by simp [bare, nothing, text]
  | .compare _ _ _ => by simp [bare, bound, text]
  | .group join members _ => by
    rw [bare, text, text, memberTexts_bare (Join.separator join) members]

theorem memberTexts_bare (separator : String) : (members : List Constraint) →
    memberTexts separator (bareMembers members) = memberTexts separator members
  | [] => rfl
  | [c] => by rw [bareMembers, bareMembers, memberTexts, memberTexts, text_bare c]
  | c :: d :: rest => by
    rw [bareMembers, bareMembers, memberTexts, memberTexts, text_bare c]
    exact congrArg _ (memberTexts_bare separator (d :: rest))

end

mutual

/-- **Labels are no part of the meaning**, by recursion on the tree. -/
theorem admits_bare (v : Version) : (c : Constraint) → c.bare.admits v = c.admits v
  | .all _ => by simp [bare, anything, admits]
  | .none _ => by simp [bare, nothing, admits]
  | .compare _ _ _ => by simp [bare, bound, admits]
  | .group .all members _ => by rw [bare, admits, admits, (members_admit_bare v members).1]
  | .group .any members _ => by rw [bare, admits, admits, (members_admit_bare v members).2]

theorem members_admit_bare (v : Version) : (members : List Constraint) →
    allAdmit (bareMembers members) v = allAdmit members v ∧
      anyAdmits (bareMembers members) v = anyAdmits members v
  | [] => ⟨rfl, rfl⟩
  | c :: rest => by
    obtain ⟨hall, hany⟩ := members_admit_bare v rest
    rw [bareMembers, allAdmit, allAdmit, anyAdmits, anyAdmits, admits_bare v c, hall, hany]
    exact ⟨rfl, rfl⟩

end

/-! ## Labels and simplification -/

/-- Labels may be taken off before or after simplification. -/
theorem bare_combine (join : Join) (members : List Constraint) :
    (combine join members).bare = combine join (members.map bare) := by
  -- combining asks its members what they decide, and never for their labels
  have hdecides : (decides join ∘ bare) = decides join := by
    funext c
    cases join <;> simp [decides]
  have hneutral : ((fun c => !isNeutral join c) ∘ bare) = fun c => !isNeutral join c := by
    funext c
    cases join <;> simp [isNeutral]
  unfold combine
  rw [List.any_map, hdecides, List.filter_map, hneutral]
  split
  · cases join <;> simp [anything, nothing, bare]
  · rcases members.filter (fun c => !isNeutral join c) with _ | ⟨c, _ | ⟨d, rest⟩⟩
    · cases join <;> cases members <;> simp [anything, nothing, bare]
    · rfl
    · simp [bare, bareMembers_eq]

/-- One member comes to itself, up to labels. -/
theorem bare_combine_singleton (join : Join) (c : Constraint) :
    (combine join [c]).bare = c.bare := by
  cases join <;> cases c <;> rfl

end ReleaseMatrix.Constraint
