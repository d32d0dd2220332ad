/-
  Constraints — the tree that a requirement is read into.

  A leaf admits every version, no version, or those that compare with a bound as its operator says.
  A group joins its members: all of them must admit a version, or any one.  Every node may carry a
  *label*, the words it was written in; labels are for people and never change what is admitted.

  1. **Meaning** — `Constraint.admits`, with `allAdmit` and `anyAdmits` for the members of a group.
  2. **Normal text** — `Constraint.text`: `*`, `[]`, `>= 8.1.0`, `[a b]`, `[a || b]`.
  3. **Simplification** — `Constraint.combine` drops members that decide nothing, lets one that
     decides everything decide, and unwraps a single survivor.
-/
import ReleaseMatrix.Constraint.Operator

namespace ReleaseMatrix

/-- How the members of a group are joined. -/
inductive Join where
  | all
  | any
deriving DecidableEq, Repr, Inhabited

/-- A condition on versions. -/
inductive Constraint where
  | all (label : Option String)
  | none (label : Option String)
  | compare (operator : Operator) (bound : Version) (label : Option String)
  | group (join : Join) (members : List Constraint) (label : Option String)
deriving Inhabited

namespace Constraint

/-! ## Leaves and labels -/

/-- Every version is admitted; nothing is written. -/
def anything : Constraint := .all Option.none

/-- No version is admitted; nothing is written. -/
def nothing : Constraint := .none Option.none

/-- A comparison with a bound, without a label. -/
def bound (operator : Operator) (version : Version) : Constraint :=
  .compare operator version Option.none

/-- The same condition under another label, or under none. -/
def relabel (label : Option String) : Constraint → Constraint
  | .all _ => .all label
  | .none _ => .none label
  | .compare op v _ => .compare op v label
  | .group join members _ => .group join members label

/-- The label of the root. -/
def label? : Constraint → Option String
  | .all label | .none label | .compare _ _ label | .group _ _ label => label

/-- The root lets everything through. -/
def isAll : Constraint → Bool
  | .all _ => true
  | _ => false

/-- The root lets nothing through. -/
def isNone : Constraint → Bool
  | .none _ => true
  | _ => false

/-- The root is a group. -/
def isGroup : Constraint → Bool
  | .group .. => true
  | _ => false

/-! ## Meaning -/

mutual

/-- Whether a version meets the condition. -/
def admits : Constraint → Version → Bool
  | .all _, _ => true
  | .none _, _ => false
  | .compare op b _, v => op.holds v b
  | .group .all members _, v => allAdmit members v
  | .group .any members _, v => anyAdmits members v

/-- Whether a version meets each of the conditions. -/
def allAdmit : List Constraint → Version → Bool
  | [], _ => true
  | c :: rest, v => c.admits v && allAdmit rest v

/-- Whether a version meets at least one of the conditions. -/
def anyAdmits : List Constraint → Version → Bool
  | [], _ => false
  | c :: rest, v => c.admits v || anyAdmits rest v

end

/-- All members admit a version if each of them does. -/
theorem allAdmit_eq (members : List Constraint) (v : Version) :
    allAdmit members v = members.all (·.admits v) := by
  induction members with
  | nil => rfl
  | cons c rest ih => simp [allAdmit, ih]

/-- Some member admits a version if one of them does. -/
theorem anyAdmits_eq (members : List Constraint) (v : Version) :
    anyAdmits members v = members.any (·.admits v) := by
  induction members with
  | nil => rfl
  | cons c rest ih => simp [anyAdmits, ih]

/-- A label changes nothing about what is admitted. -/
@[simp] theorem admits_relabel (c : Constraint) (label : Option String) (v : Version) :
    (c.relabel label).admits v = c.admits v := by
  cases c with
  | group join => cases join <;> simp [relabel, admits]
  | _ => simp [relabel, admits]

/-! ## Normal text -/

/-- What stands between the members of a group. -/
def Join.separator : Join → String
  | .all => " "
  | .any => " || "

mutual

/-- The condition in normal form. -/
def text : Constraint → String
  | .all _ => "*"
  | .none _ => "[]"
  | .compare op b _ => op.text ++ " " ++ b.text
  | .group join members _ => "[" ++ memberTexts (Join.separator join) members ++ "]"

/-- The members in normal form, with a separator between them. -/
def memberTexts (separator : String) : List Constraint → String
  | [] => ""
  | [c] => c.text
  | c :: d :: rest => c.text ++ separator ++ memberTexts separator (d :: rest)

end

/-- The condition as it was written, or in normal form if that is not known. -/
def pretty (c : Constraint) : String := c.label?.getD c.text

/-! ## Groups -/

/-- A group needs at least two members. -/
inductive GroupError where
  | tooFewMembers
deriving DecidableEq, Repr

/-- What is reported for it. -/
def GroupError.message : GroupError → String
  | tooFewMembers => "A constraint group needs at least two members"

/-- The group of exactly these members. -/
def groupOf (join : Join) (members : List Constraint) : Except GroupError Constraint :=
  if members.length < 2 then .error .tooFewMembers
  else .ok (.group join members Option.none)

/-- A member that settles the group by itself: one that admits nothing among members that must all
admit, one that admits everything among members of which any may. -/
def decides : Join → Constraint → Bool
  | .all, c => c.isNone
  | .any, c => c.isAll

/-- A member that leaves the group to the others. -/
def isNeutral : Join → Constraint → Bool
  | .all, c => c.isAll
  | .any, c => c.isNone

/-- **Simplification**: the members as one condition.  Without any member there is nothing to
meet, whichever way they are joined. -/
def combine (join : Join) (members : List Constraint) : Constraint :=
  if members.any (decides join) then
    match join with
    | .all => nothing
    | .any => anything
  else
    match members.filter (fun c => !isNeutral join c) with
    | [] => if join = .all ∨ members = [] then anything else nothing
    | [c] => c
    | kept => .group join kept Option.none

end Constraint
end ReleaseMatrix
