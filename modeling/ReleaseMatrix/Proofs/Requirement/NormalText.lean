/-
  Normal texts — what is written of a tree says which tree it is.

  A text is written without any quoting, and the blank between an operator and its bound is the one
  between two members; the empty brackets of "nothing" could be those of a group:

      >= 8.1.0      [>= 8.1.0 < 9.0.0]      [[] || *]      []

  Still there is only one way to read it, because the first character of a member tells what it is
  (`*`, a bracket, or an operator) and its end is where no digit can follow.  So two trees are
  compared from left to right, each with whatever follows it: what follows is the same in the end
  (`Grouped.tells`).  A group has two members or more, so behind the first one stands the
  separator, and a bar in it or none tells how they are joined.

  1. **Trees** — `Grouped`, those that can be built from groups of at least two members.
  2. **Texts** — operators, separators, members, and trees by induction.
  3. **Requirements** — `text_determines`: labels apart, texts are trees, and requirements of one
     normal text admit the same.
-/
import ReleaseMatrix.Proofs.Constraint.Label
import ReleaseMatrix.Proofs.Requirement.Shape
import ReleaseMatrix.Proofs.Version.Written

namespace ReleaseMatrix

open Text (NoDigit noDigit_cons noDigit_nil)

/-! ## Operators -/

/-- An operator in front of a blank is told apart from what follows. -/
theorem Operator.text_append_inj {op op' : Operator} {r s : List Char}
    (h : op.text.toList ++ ' ' :: r = op'.text.toList ++ ' ' :: s) : op = op' ∧ r = s := by
  cases op <;> cases op' <;> simp_all [Operator.text]

namespace Constraint

/-! ## Trees -/

/-- The groups of the tree have at least two members each, at any depth. -/
inductive Grouped : Constraint → Prop where
  | all {label : Option String} : Grouped (.all label)
  | none {label : Option String} : Grouped (.none label)
  | compare {op : Operator} {v : Version} {label : Option String} : Grouped (.compare op v label)
  | group {join : Join} {members : List Constraint} {label : Option String}
      (hlength : 2 ≤ members.length) (hmembers : ∀ c ∈ members, Grouped c) :
      Grouped (.group join members label)

/-- A group that can be formed has enough members. -/
theorem Grouped.of_groupOf {join : Join} {members : List Constraint} {c : Constraint}
    (h : groupOf join members = .ok c) (hmembers : ∀ d ∈ members, Grouped d) : Grouped c := by
  rw [groupOf] at h
  split at h
  case isTrue => cases h
  case isFalse hlength =>
    obtain rfl := Except.ok.inj h
    exact .group (Nat.le_of_not_lt hlength) hmembers

/-- A proper tree has groups of two members at least. -/
theorem Proper.grouped {p : Version → Prop} {depth : Nat} {c : Constraint} (h : Proper p depth c) :
    Grouped c := by
  induction h with
  | bound => exact .compare
  | group hlength _ ih => exact .group hlength ih

/-- So has a reduced one, which is proper or a leaf. -/
theorem Reduced.grouped {p : Version → Prop} {depth : Nat} {c : Constraint}
    (h : Reduced p depth c) : Grouped c := by
  rcases h with hall | hnone | hproper
  · cases c with
    | all => exact .all
    | _ => cases hall
  · cases c with
    | none => exact .none
    | _ => cases hnone
  · exact hproper.grouped

/-! ## Texts -/

/-- The characters of a text, by what stands first in it. -/
theorem toList_text_compare (op : Operator) (v : Version) (label : Option String) :
    (compare op v label).text.toList = op.text.toList ++ ' ' :: v.text.toList := by
  simp [text]

theorem toList_text_group (join : Join) (members : List Constraint) (label : Option String) :
    (group join members label).text.toList =
      '[' :: ((memberTexts (Join.separator join) members).toList ++ [']']) := by
  simp [text]

/-- What a text can begin with. -/
def firsts : List Char := ['*', '[', '=', '!', '<', '>']

/-- A tree begins with one of few characters. -/
theorem exists_first (c : Constraint) : ∃ first ∈ firsts, ∃ rest, c.text.toList = first :: rest := by
  cases c with
  | all => exact ⟨'*', by decide, [], by simp [text]⟩
  | none => exact ⟨'[', by decide, [']'], by simp [text]⟩
  | compare op v label =>
    rw [toList_text_compare]
    cases op with
    | equal => exact ⟨'=', by decide, _, rfl⟩
    | notEqual => exact ⟨'!', by decide, _, rfl⟩
    | less | lessOrEqual => exact ⟨'<', by decide, _, rfl⟩
    | greater | greaterOrEqual => exact ⟨'>', by decide, _, rfl⟩
  | group join members label =>
    exact ⟨'[', by decide, _, toList_text_group join members label⟩

/-- So do the members of a group. -/
theorem exists_first_members (separator : String) (c : Constraint) (rest : List Constraint) :
    ∃ first ∈ firsts, ∃ more, (memberTexts separator (c :: rest)).toList = first :: more := by
  obtain ⟨first, hfirst, more, hc⟩ := c.exists_first
  cases rest with
  | nil => exact ⟨first, hfirst, more, hc⟩
  | cons d rest =>
    refine ⟨first, hfirst, more ++ (separator ++ memberTexts separator (d :: rest)).toList, ?_⟩
    rw [memberTexts, String.append_assoc, String.toList_append, hc, List.cons_append]

theorem memberTexts_cons_cons (separator : String) (c d : Constraint) (rest : List Constraint) :
    (memberTexts separator (c :: d :: rest)).toList =
      c.text.toList ++ (separator.toList ++ (memberTexts separator (d :: rest)).toList) := by
  rw [memberTexts, String.toList_append, String.toList_append, List.append_assoc]

/-- Between members, a bar tells the one join from the other. -/
theorem separator_append_inj {join join' : Join} {r s : List Char} (hr : ∀ rest, r ≠ '|' :: rest)
    (hs : ∀ rest, s ≠ '|' :: rest)
    (h : (Join.separator join).toList ++ r = (Join.separator join').toList ++ s) :
    join = join' ∧ r = s := by
  cases join with
  | all =>
    cases join' with
    | all => exact ⟨rfl, List.append_cancel_left h⟩
    | any => exact absurd (List.cons.inj h).2 (hr _)
  | any =>
    cases join' with
    | all => exact absurd (List.cons.inj h).2.symm (hs _)
    | any => exact ⟨rfl, List.append_cancel_left h⟩

theorem noDigit_separator (join : Join) (cs : List Char) :
    NoDigit ((Join.separator join).toList ++ cs) := by
  cases join <;> exact noDigit_cons (by decide) _

/-- A separator is no closing bracket. -/
theorem bracket_ne_separator (join : Join) (r s : List Char) :
    ']' :: r ≠ (Join.separator join).toList ++ s := by
  cases join <;> exact fun h => absurd (List.cons.inj h).1 (by decide)

/-- Members begin with neither a bar nor a closing bracket. -/
theorem members_append_ne (separator : String) (c : Constraint) (rest : List Constraint)
    (cs : List Char) {d : Char} (hd : d ∉ firsts) (more : List Char) :
    (memberTexts separator (c :: rest)).toList ++ cs ≠ d :: more := by
  obtain ⟨first, hfirst, behind, htext⟩ := exists_first_members separator c rest
  rw [htext, List.cons_append]
  intro h
  exact hd ((List.cons.inj h).1 ▸ hfirst)

/-- The text of the tree tells the tree, up to labels, and where it ends. -/
def Tells (c : Constraint) : Prop :=
  ∀ ⦃d : Constraint⦄ ⦃r s : List Char⦄, Grouped d → NoDigit r → NoDigit s →
    c.text.toList ++ r = d.text.toList ++ s → c.bare = d.bare ∧ r = s

/-- **Members are told one by one**, up to the bracket behind the last one; two or more of them also
tell how they are joined. -/
theorem members_append_inj {join join' : Join} {cs ds : List Constraint} (hcs : ∀ c ∈ cs, Tells c)
    (hds : ∀ d ∈ ds, Grouped d) (hcne : cs ≠ []) (hdne : ds ≠ []) {r s : List Char}
    (h : (memberTexts (Join.separator join) cs).toList ++ ']' :: r =
      (memberTexts (Join.separator join') ds).toList ++ ']' :: s) :
    cs.map bare = ds.map bare ∧ r = s ∧ (2 ≤ cs.length → join = join') := by
  have hbracket (cs : List Char) : NoDigit (']' :: cs) := noDigit_cons (by decide) cs
  induction cs generalizing ds with
  | nil => exact absurd rfl hcne
  | cons c cs ih =>
    obtain ⟨hc, hcs⟩ := List.forall_mem_cons.mp hcs
    obtain ⟨d, ds, rfl⟩ := List.exists_cons_of_ne_nil hdne
    obtain ⟨hd, hds⟩ := List.forall_mem_cons.mp hds
    rcases cs with _ | ⟨c', cs⟩ <;> rcases ds with _ | ⟨d', ds⟩
    · -- the last members of both
      obtain ⟨hbare, hrest⟩ := hc hd (hbracket r) (hbracket s) h
      exact ⟨congrArg₂ List.cons hbare rfl, (List.cons.inj hrest).2,
        fun hlength => absurd hlength (by simp)⟩
    · -- the one group ends where the other one goes on
      rw [memberTexts_cons_cons, List.append_assoc, List.append_assoc] at h
      obtain ⟨-, hrest⟩ := hc hd (hbracket r) (noDigit_separator join' _) h
      exact absurd hrest (bracket_ne_separator join' _ _)
    · rw [memberTexts_cons_cons, List.append_assoc, List.append_assoc] at h
      obtain ⟨-, hrest⟩ := hc hd (noDigit_separator join _) (hbracket s) h
      exact absurd hrest.symm (bracket_ne_separator join _ _)
    · rw [memberTexts_cons_cons, memberTexts_cons_cons, List.append_assoc, List.append_assoc,
        List.append_assoc, List.append_assoc] at h
      obtain ⟨hbare, hrest⟩ := hc hd (noDigit_separator join _) (noDigit_separator join' _) h
      have hbar : '|' ∉ firsts := by decide
      obtain ⟨rfl, hmembers⟩ := separator_append_inj (members_append_ne _ c' cs _ hbar)
        (members_append_ne _ d' ds _ hbar) hrest
      obtain ⟨hmap, hend, -⟩ := ih hcs hds (List.cons_ne_nil _ _) (List.cons_ne_nil _ _) hmembers
      exact ⟨congrArg₂ List.cons hbare hmap, hend, fun _ => rfl⟩

/-- A comparison is written like no tree of another kind. -/
theorem compare_append_ne {d : Constraint} (hd : d.bound? = Option.none) (op : Operator)
    (v : Version) (label : Option String) (r s : List Char) :
    (compare op v label).text.toList ++ r ≠ d.text.toList ++ s := by
  rw [toList_text_compare]
  cases d with
  | all | none | group => cases op <;> simp [Operator.text, text]
  | compare => cases hd

/-- No group with members is empty brackets. -/
theorem group_append_ne {members : List Constraint} (hlength : 2 ≤ members.length) (join : Join)
    (label label' : Option String) (r s : List Char) :
    (group join members label).text.toList ++ r ≠ (none label').text.toList ++ s := by
  obtain ⟨c, rest, rfl⟩ := List.exists_cons_of_length_pos (Nat.lt_of_lt_of_le Nat.two_pos hlength)
  have hbracket : ']' ∉ firsts := by decide
  have hfirst := members_append_ne (Join.separator join) c rest (']' :: r) hbracket s
  simpa [text] using hfirst

/-- **A tree is told by its text**, by induction on the tree. -/
theorem Grouped.tells {c : Constraint} (hc : Grouped c) : Tells c := by
  have hne {members : List Constraint} (h : 2 ≤ members.length) : members ≠ [] :=
    List.ne_nil_of_length_pos (Nat.lt_of_lt_of_le Nat.two_pos h)
  induction hc with
  | all =>
    intro d r s hd _ _ h
    cases hd with
    | all => exact ⟨by rw [bare, bare], by simpa [text] using h⟩
    | none | group => simp [text] at h
    | compare => exact absurd h.symm (compare_append_ne rfl _ _ _ s r)
  | none =>
    intro d r s hd _ _ h
    cases hd with
    | all => simp [text] at h
    | none => exact ⟨by rw [bare, bare], by simpa [text] using h⟩
    | compare => exact absurd h.symm (compare_append_ne rfl _ _ _ s r)
    | group hlength => exact absurd h.symm (group_append_ne hlength _ _ _ s r)
  | @compare op v label =>
    intro d r s hd hr hs h
    cases hd with
    | all | none | group => exact absurd h (compare_append_ne rfl op v label r s)
    | compare =>
      rw [toList_text_compare, toList_text_compare, List.append_assoc, List.append_assoc] at h
      obtain ⟨rfl, hbound⟩ := Operator.text_append_inj h
      obtain ⟨rfl, hrest⟩ := Version.text_append_inj hr hs hbound
      exact ⟨by rw [bare, bare], hrest⟩
  | @group join members label hlength _ ih =>
    intro d r s hd _ _ h
    cases hd with
    | all => simp [text] at h
    | none => exact absurd h (group_append_ne hlength join label _ r s)
    | compare => exact absurd h.symm (compare_append_ne rfl _ _ _ s r)
    | @group join' members' label' hlength' hmembers' =>
      rw [toList_text_group, toList_text_group] at h
      simp only [List.cons_append, List.append_assoc, List.nil_append] at h
      obtain ⟨hbare, hrest, hjoin⟩ := members_append_inj ih hmembers' (hne hlength) (hne hlength')
        (List.cons.inj h).2
      obtain rfl := hjoin hlength
      exact ⟨by rw [bare, bare, bareMembers_eq, bareMembers_eq, hbare], hrest⟩

/-- Trees of one text are one tree under its labels, and the other way round. -/
theorem Grouped.text_eq_iff {c d : Constraint} (hc : Grouped c) (hd : Grouped d) :
    c.text = d.text ↔ c.bare = d.bare := by
  constructor
  · intro h
    exact (hc.tells hd noDigit_nil noDigit_nil (by rw [h])).1
  · intro h
    rw [← text_bare c, h, text_bare]

end Constraint

namespace Requirement

/-! ## Requirements -/

theorem grouped_constraint (text : String) : (ofText text).constraint.Grouped :=
  (reduced_constraint text).grouped

/-- **The normal text determines the constraint.**  Two trees whose groups have at least two members
each, nested to any depth, are written alike just if they differ in nothing but labels.  So two
requirements with one normal text have one tree under their labels, and admit the same versions. -/
theorem text_determines :
    (∀ {c d : Constraint}, c.Grouped → d.Grouped → (c.text = d.text ↔ c.bare = d.bare)) ∧
    ∀ {a b : String}, (ofText a).text = (ofText b).text →
      (ofText a).constraint.bare = (ofText b).constraint.bare ∧
      ∀ v, (ofText a).admits v = (ofText b).admits v := by
  refine ⟨Constraint.Grouped.text_eq_iff, fun {a b} h => ?_⟩
  have hbare : (ofText a).constraint.bare = (ofText b).constraint.bare :=
    ((grouped_constraint a).text_eq_iff (grouped_constraint b)).mp h
  refine ⟨hbare, fun v => ?_⟩
  rw [admits, admits, ← Constraint.admits_bare v (ofText a).constraint, hbare,
    Constraint.admits_bare]

/-- Empty brackets in front of a group with a star, once with labels and once without; and a range
in two spellings. -/
theorem text_determines_nested :
    let inner := Constraint.group .all [.bound .greaterOrEqual ⟨8, 1, 0⟩, .anything] none
    let plain := Constraint.group .any [.nothing, inner] none
    let labelled := Constraint.group .any [.none (some "foo"), inner.relabel (some ">=8.1 *")] none
    plain.Grouped ∧ labelled.Grouped ∧ plain.text = labelled.text ∧ plain.bare = labelled.bare ∧
    (ofText "8.1 - 8.3").text = (ofText ">=8.1,<8.4").text ∧
    ∀ v, (ofText "8.1 - 8.3").admits v = (ofText ">=8.1,<8.4").admits v := by
  intro inner plain labelled
  have hpair {c d : Constraint} (hc : c.Grouped) (hd : d.Grouped) : ∀ e ∈ [c, d], e.Grouped :=
    List.forall_mem_cons.mpr ⟨hc, List.forall_mem_singleton.mpr hd⟩
  have hformed : Constraint.groupOf .all [.bound .greaterOrEqual ⟨8, 1, 0⟩, .anything] = .ok inner :=
    rfl
  have hinner : inner.Grouped := .of_groupOf hformed (hpair .compare .all)
  have hplain : plain.Grouped := .group (by decide) (hpair .none hinner)
  have hlabelled : labelled.Grouped :=
    .group (by decide) (hpair .none (.group (by decide) (hpair .compare .all)))
  have htext : plain.text = labelled.text := by decide +kernel
  have hrange : (ofText "8.1 - 8.3").text = (ofText ">=8.1,<8.4").text := by decide +kernel
  exact ⟨hplain, hlabelled, htext, (text_determines.1 hplain hlabelled).mp htext, hrange,
    (text_determines.2 hrange).2⟩

end Requirement
end ReleaseMatrix
