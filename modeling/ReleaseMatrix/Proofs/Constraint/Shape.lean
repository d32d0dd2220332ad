/-
  The shape of a constraint — what a tree looks like once `combine` has built it.

  A leaf that admits everything or nothing says all that there is to say, so it is never worth a
  place among other members: `combine` drops it, or lets it stand for the whole group.  What is left
  is either such a leaf alone, or a *proper* tree:

      proper n          a bound
      proper (n + 1)    a bound, or a group of at least two members, each proper n

  So each call of `combine` adds at most one level of groups, and leaves that decide or leave open
  everything are found at the root or not at all.

  1. **Nodes** — `inner`, `nodes` and `depth` of a tree.
  2. **Reduced trees** — `reduced_combine`, one call of `combine` adds one level.
  3. **Normal form** — `IsNormal`, the same shape said node by node (`Reduced.isNormal`).
-/
import ReleaseMatrix.Constraint

namespace ReleaseMatrix.Constraint

/-! ## Nodes -/

/-- The members of a group; a leaf has none. -/
def members : Constraint → List Constraint
  | .group _ members _ => members
  | _ => []

/-- The bound of a comparison. -/
def bound? : Constraint → Option Version
  | .compare _ bound _ => some bound
  | _ => Option.none

mutual

/-- The nodes below a node: its members, and the nodes below these. -/
def inner : Constraint → List Constraint
  | .group _ members _ => allNodes members
  | _ => []

/-- The nodes of several trees. -/
def allNodes : List Constraint → List Constraint
  | [] => []
  | c :: rest => c :: (c.inner ++ allNodes rest)

end

/-- The nodes of a tree, the root first. -/
def nodes (c : Constraint) : List Constraint := c :: c.inner

mutual

/-- How many groups stand one inside the other. -/
def depth : Constraint → Nat
  | .group _ members _ => greatestDepth members + 1
  | _ => 0

/-- The greatest depth of several trees. -/
def greatestDepth : List Constraint → Nat
  | [] => 0
  | c :: rest => max c.depth (greatestDepth rest)

end

/-- The nodes of several trees are the nodes of each of them. -/
theorem mem_allNodes {d : Constraint} {members : List Constraint} :
    d ∈ allNodes members ↔ ∃ c ∈ members, d ∈ c.nodes := by
  induction members with
  | nil => simp [allNodes]
  | cons c rest ih => simp [allNodes, ih, nodes, or_assoc]

/-- Several trees nest no deeper than each of them. -/
theorem greatestDepth_le_iff {members : List Constraint} {n : Nat} :
    greatestDepth members ≤ n ↔ ∀ c ∈ members, c.depth ≤ n := by
  induction members with
  | nil => simp [greatestDepth]
  | cons c rest ih => rw [greatestDepth, Nat.max_le, ih, List.forall_mem_cons]

/-! ## Reduced trees -/

theorem isAll_relabel (c : Constraint) (label : Option String) :
    (c.relabel label).isAll = c.isAll := by
  cases c <;> rfl

theorem isNone_relabel (c : Constraint) (label : Option String) :
    (c.relabel label).isNone = c.isNone := by
  cases c <;> rfl

section

variable {p : Version → Prop}

/-- A tree without leaves that admit everything or nothing: bounds with the property, and groups of
at least two such trees, at most `depth` of them one inside the other. -/
inductive Proper (p : Version → Prop) : Nat → Constraint → Prop where
  | bound {depth : Nat} {op : Operator} {v : Version} {label : Option String} (hbound : p v) :
      Proper p depth (.compare op v label)
  | group {depth : Nat} {join : Join} {members : List Constraint} {label : Option String}
      (hlength : 2 ≤ members.length) (hmembers : ∀ c ∈ members, Proper p depth c) :
      Proper p (depth + 1) (.group join members label)

/-- A proper tree, or a single leaf that admits everything or nothing. -/
def Reduced (p : Version → Prop) (depth : Nat) (c : Constraint) : Prop :=
  c.isAll = true ∨ c.isNone = true ∨ Proper p depth c

/-- What nests less may nest more. -/
theorem Proper.succ {depth : Nat} {c : Constraint} (h : Proper p depth c) :
    Proper p (depth + 1) c := by
  induction h with
  | bound hbound => exact .bound hbound
  | group hlength _ ih => exact .group hlength ih

theorem reduced_anything (depth : Nat) : Reduced p depth anything := .inl rfl

theorem reduced_nothing (depth : Nat) : Reduced p depth nothing := .inr (.inl rfl)

theorem reduced_bound {v : Version} (h : p v) (depth : Nat) (op : Operator) :
    Reduced p depth (bound op v) := .inr (.inr (.bound h))

/-- Labels are no part of the shape. -/
theorem Reduced.relabel {depth : Nat} {c : Constraint} (h : Reduced p depth c)
    (label : Option String) : Reduced p depth (c.relabel label) := by
  rcases h with hall | hnone | hproper
  · exact .inl ((isAll_relabel c label).trans hall)
  · exact .inr (.inl ((isNone_relabel c label).trans hnone))
  · cases hproper with
    | bound hbound => exact .inr (.inr (.bound hbound))
    | group hlength hmembers => exact .inr (.inr (.group hlength hmembers))

/-- **Simplification adds one level.**  Among reduced members, what is neither the one that decides
nor neutral is proper, so a group of two or more of them is proper too. -/
theorem reduced_combine {depth : Nat} (join : Join) {members : List Constraint}
    (h : ∀ c ∈ members, Reduced p depth c) : Reduced p (depth + 1) (combine join members) := by
  unfold combine
  split
  case isTrue =>
    cases join
    · exact reduced_nothing _
    · exact reduced_anything _
  -- no member decides, so each of them is neutral or proper
  case isFalse hundecided =>
    have hkept : ∀ c ∈ members.filter fun c => !isNeutral join c, Proper p depth c := by
      intro c hc
      obtain ⟨hmem, hneutral⟩ := List.mem_filter.mp hc
      have hdecides : decides join c ≠ true := fun hdecides =>
        hundecided (List.any_eq_true.mpr ⟨c, hmem, hdecides⟩)
      rcases h c hmem with hall | hnone | hproper
      · cases join <;> simp_all [decides, isNeutral]
      · cases join <;> simp_all [decides, isNeutral]
      · exact hproper
    split
    case h_1 =>
      split
      · exact reduced_anything _
      · exact reduced_nothing _
    -- one is left: it stands for the group, and need not nest as deeply as it may
    case h_2 c hone =>
      rw [hone] at hkept
      exact .inr (.inr (hkept c List.mem_cons_self).succ)
    case h_3 hnil hsingle =>
      refine .inr (.inr (.group ?_ hkept))
      -- neither none nor one is left
      rcases hlist : members.filter fun c => !isNeutral join c with _ | ⟨c, _ | ⟨d, rest⟩⟩
      · exact absurd hlist hnil
      · exact absurd hlist (hsingle c)
      · simp

/-! ## Leaves that settle a group -/

/-- All of the members, one of which admits nothing. -/
theorem combine_all_eq_nothing {members : List Constraint} {c : Constraint} (hmem : c ∈ members)
    (hnone : c.isNone = true) : combine .all members = nothing :=
  if_pos (List.any_eq_true.mpr ⟨c, hmem, hnone⟩)

/-- Any of the members, none of which admits anything. -/
theorem combine_any_eq_nothing {members : List Constraint} (hne : members ≠ [])
    (hnone : ∀ c ∈ members, c.isNone = true) : combine .any members = nothing := by
  have hundecided : ¬ members.any (decides .any) = true := by
    rw [List.any_eq_true]
    rintro ⟨c, hmem, hall⟩
    have := hnone c hmem
    cases c <;> simp_all [decides, isAll, isNone]
  have hkept : members.filter (fun c => !isNeutral .any c) = [] :=
    List.filter_eq_nil_iff.mpr fun c hmem => by simp [isNeutral, hnone c hmem]
  simp [combine, hundecided, hkept, hne]

/-! ## Normal form -/

/-- The normal form, with bounds of one kind and groups to some depth. -/
structure IsNormal (p : Version → Prop) (depth : Nat) (c : Constraint) : Prop where
  /-- Below the root, no leaf admits everything or nothing. -/
  plain : ∀ d ∈ c.inner, d.isAll = false ∧ d.isNone = false
  /-- A group has at least two members. -/
  joined : ∀ d ∈ c.nodes, d.isGroup = true → 2 ≤ d.members.length
  /-- Groups nest no deeper. -/
  shallow : c.depth ≤ depth
  /-- Bounds are of that kind. -/
  bounded : ∀ d ∈ c.nodes, ∀ v, d.bound? = some v → p v

/-- A proper tree nests no deeper than it says. -/
theorem Proper.depth_le {depth : Nat} {c : Constraint} (h : Proper p depth c) :
    c.depth ≤ depth := by
  induction h with
  | bound => exact Nat.zero_le _
  | group _ _ ih => exact Nat.succ_le_succ (greatestDepth_le_iff.mpr ih)

/-- The nodes of a proper tree are proper themselves. -/
theorem Proper.of_mem_nodes {depth : Nat} {c d : Constraint} (h : Proper p depth c)
    (hd : d ∈ c.nodes) : ∃ n, Proper p n d := by
  induction h with
  | bound hbound =>
    obtain rfl := List.mem_singleton.mp hd
    exact ⟨0, .bound hbound⟩
  | group hlength hmembers ih =>
    rcases List.mem_cons.mp hd with rfl | hd
    · exact ⟨_, .group hlength hmembers⟩
    · obtain ⟨c, hc, hd⟩ := mem_allNodes.mp hd
      exact ih c hc hd

/-- A leaf without a bound. -/
theorem isNormal_of_inner_eq_nil {depth : Nat} {c : Constraint} (hinner : c.inner = [])
    (hgroup : c.isGroup = false) (hbound : c.bound? = Option.none) : IsNormal p depth c := by
  have hdepth : c.depth = 0 := by
    cases c with
    | group => cases hgroup
    | _ => simp [Constraint.depth]
  refine ⟨?_, ?_, by omega, ?_⟩
  · simp [hinner]
  · simp [nodes, hinner, hgroup]
  · simp [nodes, hinner, hbound]

/-- **A reduced tree is in normal form.** -/
theorem Reduced.isNormal {depth : Nat} {c : Constraint} (h : Reduced p depth c) :
    IsNormal p depth c := by
  rcases h with hall | hnone | hproper
  · cases c with
    | all => exact isNormal_of_inner_eq_nil (by simp [inner]) rfl rfl
    | _ => cases hall
  · cases c with
    | none => exact isNormal_of_inner_eq_nil (by simp [inner]) rfl rfl
    | _ => cases hnone
  · refine ⟨?_, ?_, hproper.depth_le, ?_⟩
    · intro d hd
      obtain ⟨n, hd⟩ := hproper.of_mem_nodes (List.mem_cons_of_mem c hd)
      cases hd <;> exact ⟨rfl, rfl⟩
    · intro d hd hgroup
      obtain ⟨n, hd⟩ := hproper.of_mem_nodes hd
      cases hd with
      | bound => cases hgroup
      | group hlength _ => exact hlength
    · intro d hd v hv
      obtain ⟨n, hd⟩ := hproper.of_mem_nodes hd
      cases hd with
      | bound hbound =>
        obtain rfl := Option.some.inj hv
        exact hbound
      | group => cases hv

end

end ReleaseMatrix.Constraint
