/-
  Layout — how a requirement is spaced makes no difference.

  Blanks and commas do one thing only: they keep pieces of a clause apart.  So a gap between two
  pieces may be any other gap, and at the ends of a clause, next to a bar or to an end of the text,
  there may be any gap or none:

      >=7.4 <8.3||foo          >=7.4, <8.3 || foo ,          read alike
      >=7.4<8.3                                              does not, a gap has gone
      a | | b                  a || b                        do not, the bars are others

  A text is cut at every single bar character into *columns*, which no such edit changes
  (`columns_eq_of_edit`).  Which of the columns are clauses is settled by the bars that are read:
  the column between the two characters of a double bar is none (`alternatives_eq_merge`).  So the
  bars need to be the same at the two ends of a series of edits, not in between.

  1. **Parts** — two texts side by side share one part at the seam (`splitWhere_append`).
  2. **Bars and columns** — `bars`, `columns`, and the clauses that come of them (`merge`).
  3. **Edits** — `Edit`, and what it leaves alone.
  4. **Requirements** — `Relaid`, `Alike`, and the main result `layout_free`.
-/
import Mathlib.Logic.Relation
import ReleaseMatrix.Proofs.Constraint.Label
import ReleaseMatrix.Proofs.Requirement.Meaning

namespace ReleaseMatrix

/-! ## Parts of two texts side by side -/

namespace Text

section

variable {p : Char → Bool}

/-- **Cutting goes on from the last part**: all parts but the last one of a text stay what they
are, whatever follows. -/
theorem splitWhere_append (p : Char → Bool) (front : List Char) : ∃ init last,
    ∀ {back first : List Char} {rest : List (List Char)}, splitWhere p back = first :: rest →
      splitWhere p (front ++ back) = init ++ (last ++ first) :: rest := by
  induction front with
  | nil => exact ⟨[], [], fun hback => hback⟩
  | cons c front ih =>
    obtain ⟨init, last, happend⟩ := ih
    by_cases hc : p c = true
    · -- a cut closes an empty part, any other character goes into the first one
      refine ⟨[] :: init, last, fun hback => ?_⟩
      rw [List.cons_append, splitWhere, if_pos hc, happend hback]
      rfl
    · cases init with
      | nil =>
        refine ⟨[], c :: last, fun hback => ?_⟩
        rw [List.cons_append, splitWhere, if_neg hc, happend hback]
        rfl
      | cons part init =>
        refine ⟨(c :: part) :: init, last, fun hback => ?_⟩
        rw [List.cons_append, splitWhere, if_neg hc, happend hback]
        rfl

/-- The last part is empty in a text that is empty or ends in a cut. -/
theorem last_eq_nil {cs last : List Char} {init : List (List Char)}
    (hcs : splitWhere p cs = init ++ [last]) (h : ∀ c ∈ cs.getLast?, p c = true) : last = [] := by
  have hinj {parts : List (List Char)} (heq : parts ++ [[]] = init ++ [last]) : last = [] :=
    (List.singleton_inj.mp (List.append_inj_right' heq rfl)).symm
  cases hlast : cs.getLast? with
  | none =>
    rw [List.getLast?_eq_none_iff.mp hlast] at hcs
    exact @hinj [] hcs
  | some c =>
    obtain ⟨front, rfl⟩ := List.getLast?_eq_some_iff.mp hlast
    rw [splitWhere_append_cons p front [] (h c hlast)] at hcs
    exact hinj hcs

/-- The first part is empty in a text that is empty or begins with a cut. -/
theorem first_eq_nil {cs first : List Char} {rest : List (List Char)}
    (hcs : splitWhere p cs = first :: rest) (h : ∀ c ∈ cs.head?, p c = true) : first = [] := by
  cases cs with
  | nil => exact (List.cons.inj hcs).1.symm
  | cons c cs =>
    rw [splitWhere, if_pos (h c rfl)] at hcs
    exact (List.cons.inj hcs).1.symm

end

end Text

/-! ## Bars and columns -/

namespace Clause

open Text

/-- What two clauses have between them. -/
inductive Bar where
  /-- `|` -/
  | single
  /-- `||` -/
  | double
deriving DecidableEq, Repr

/-- The bars of a text, read from left to right. -/
def bars : List Char → List Bar
  | [] => []
  | '|' :: '|' :: rest => .double :: bars rest
  | '|' :: rest => .single :: bars rest
  | _ :: rest => bars rest

/-- A character that bars are made of. -/
def isBar (c : Char) : Bool := c == '|'

/-- What is left of the columns when the bars between them are known: a double bar has a column of
its own between its two characters, which goes. -/
def merge {β : Type} : List Bar → List β → List β
  | .single :: bs, column :: columns => column :: merge bs columns
  | .double :: bs, column :: _ :: columns => column :: merge bs columns
  | _, columns => columns

/-- Merging columns does not look at what is in them. -/
theorem merge_map {β γ : Type} (f : β → γ) (bs : List Bar) (columns : List β) :
    merge bs (columns.map f) = (merge bs columns).map f := by
  induction bs generalizing columns with
  | nil => rfl
  | cons bar bs ih =>
    cases bar with
    | single =>
      rcases columns with _ | ⟨column, columns⟩
      · rfl
      · exact congrArg _ (ih columns)
    | double =>
      rcases columns with _ | ⟨column, _ | ⟨between, columns⟩⟩
      · rfl
      · rfl
      · exact congrArg _ (ih columns)

/-- A character more in front stays in the first column. -/
theorem merge_consFirst (c : Char) (bs : List Bar) {columns : List (List Char)}
    (h : columns ≠ []) : merge bs (consFirst c columns) = consFirst c (merge bs columns) := by
  obtain ⟨column, columns, rfl⟩ := List.exists_cons_of_ne_nil h
  rcases bs with _ | ⟨_ | _, bs⟩
  · rfl
  · rfl
  · cases columns <;> rfl

/-- **The clauses of a text are its columns**, but for those inside a double bar. -/
theorem alternatives_eq_merge (cs : List Char) :
    alternatives cs = merge (bars cs) (splitWhere isBar cs) := by
  fun_induction alternatives cs with
  | case1 => rfl
  | case2 rest ih => exact congrArg _ ih
  | case3 rest hsingle ih =>
    have hbars : bars ('|' :: rest) = .single :: bars rest := by
      rw [bars]
      exact hsingle
    rw [hbars, ih]
    rfl
  | case4 c rest hdouble hc ih =>
    have hbars : bars (c :: rest) = bars rest := by
      rw [bars]
      · rintro tail rfl
        exact absurd rfl hc
      · exact hc
    -- only here the text is not cut, and the character stays with what follows
    have hcut : ¬ isBar c = true := by simpa [isBar] using hc
    rw [hbars, splitWhere, if_neg hcut, merge_consFirst c _ (splitWhere_ne_nil isBar rest), ih]

/-- The pieces of the columns, which is all that is read of these. -/
def columns (cs : List Char) : List (List (List Char)) := (splitWhere isBar cs).map pieces

/-- **The clauses of a text have the pieces of its columns**, merged where a single bar parts them.
-/
theorem map_pieces_alternatives (cs : List Char) :
    (alternatives cs).map pieces = merge (bars cs) (columns cs) := by
  rw [alternatives_eq_merge, columns, merge_map]

/-! ## Edits -/

/-- One gap of a text is replaced by another one. -/
inductive Edit : List Char → List Char → Prop where
  /-- Between two pieces there must be a gap, of whatever kind. -/
  | between {left gap gap' right : List Char} (hne : gap ≠ []) (hne' : gap' ≠ [])
      (hgap : ∀ c ∈ gap, isSeparator c = true) (hgap' : ∀ c ∈ gap', isSeparator c = true) :
      Edit (left ++ gap ++ right) (left ++ gap' ++ right)
  /-- Behind a bar or at the start of the text, a gap may come or go. -/
  | start {left gap gap' right : List Char} (hleft : ∀ c ∈ left.getLast?, c = '|')
      (hgap : ∀ c ∈ gap, isSeparator c = true) (hgap' : ∀ c ∈ gap', isSeparator c = true) :
      Edit (left ++ gap ++ right) (left ++ gap' ++ right)
  /-- So it may before a bar or at the end of the text. -/
  | finish {left gap gap' right : List Char} (hright : ∀ c ∈ right.head?, c = '|')
      (hgap : ∀ c ∈ gap, isSeparator c = true) (hgap' : ∀ c ∈ gap', isSeparator c = true) :
      Edit (left ++ gap ++ right) (left ++ gap' ++ right)

/-- A gap lies in one column. -/
theorem exists_columns (left right : List Char) : ∃ init last first rest,
    splitWhere isBar left = init ++ [last] ∧ splitWhere isBar right = first :: rest ∧
      ∀ gap : List Char, (∀ c ∈ gap, isSeparator c = true) →
        columns (left ++ gap ++ right) =
          init.map pieces ++ pieces (last ++ gap ++ first) :: rest.map pieces := by
  obtain ⟨init, last, happend⟩ := splitWhere_append isBar left
  obtain ⟨first, rest, hright⟩ := List.exists_cons_of_ne_nil (splitWhere_ne_nil isBar right)
  have hleft : splitWhere isBar left = init ++ [last] := by
    have hnil := happend (show splitWhere isBar [] = [[]] from rfl)
    rwa [List.append_nil, List.append_nil] at hnil
  refine ⟨init, last, first, rest, hleft, hright, fun gap hgap => ?_⟩
  -- a gap holds no bar, so it lies within one column
  have hplain : ∀ c ∈ gap, isBar c = false := by
    intro c hc
    refine beq_false_of_ne ?_
    rintro rfl
    exact absurd (hgap '|' hc) (by decide)
  rw [columns, List.append_assoc, happend (splitWhere_plain_append hplain hright),
    List.map_append, List.map_cons, List.append_assoc]

/-- **An edit leaves the columns alone.** -/
theorem columns_eq_of_edit {a b : List Char} (h : Edit a b) : columns a = columns b := by
  have hbar {c : Char} (hc : c = '|') : isBar c = true := by rw [hc]; rfl
  cases h with
  | @between left gap gap' right hne hne' hgap hgap' =>
    obtain ⟨init, last, first, rest, -, -, haround⟩ := exists_columns left right
    rw [haround gap hgap, haround gap' hgap', pieces_join last first hne hgap,
      pieces_join last first hne' hgap']
  | @start left gap gap' right hleft hgap hgap' =>
    obtain ⟨init, last, first, rest, hlast, -, haround⟩ := exists_columns left right
    -- the gap follows a bar or nothing, so its column begins with it
    obtain rfl : last = [] := last_eq_nil hlast fun c hc => hbar (hleft c hc)
    rw [haround gap hgap, haround gap' hgap', List.nil_append, List.nil_append,
      pieces_gap_append hgap, pieces_gap_append hgap']
  | @finish left gap gap' right hright hgap hgap' =>
    obtain ⟨init, last, first, rest, -, hfirst, haround⟩ := exists_columns left right
    -- the same at the other end of a column
    obtain rfl : first = [] := first_eq_nil hfirst fun c hc => hbar (hright c hc)
    rw [haround gap hgap, haround gap' hgap', List.append_nil, List.append_nil,
      pieces_append_gap last hgap, pieces_append_gap last hgap']

/-- So however often a text is laid out anew, its columns stay. -/
theorem columns_eq_of_edits {a b : List Char} (h : Relation.ReflTransGen Edit a b) :
    columns a = columns b := by
  induction h with
  | refl => rfl
  | tail _ hedit ih => exact ih.trans (columns_eq_of_edit hedit)

end Clause

/-! ## Requirements that are laid out in another way -/

namespace Problem

/-- What sort of thing is wrong. -/
inductive Kind where
  | emptyVersion
  | invalidVersion
  | invalidOperator
  | incompleteRange
  | emptyClause
deriving DecidableEq, Repr

/-- The sort of a problem, without the words that it quotes. -/
def kind : Problem → Kind
  | emptyVersion _ => .emptyVersion
  | invalidVersion _ _ => .invalidVersion
  | invalidOperator _ _ => .invalidOperator
  | incompleteRange _ => .incompleteRange
  | emptyClause _ => .emptyClause

end Problem

namespace Clause

/-- Only what is quoted of the requirement depends on it. -/
theorem kinds_congr (whole₁ whole₂ : String) {a b : List Char} (h : pieces a = pieces b) :
    (problems whole₁ a).map Problem.kind = (problems whole₂ b).map Problem.kind := by
  rw [problems_congr whole₁ h]
  unfold problems
  split <;> rfl

end Clause

namespace Requirement

open Clause

/-- The gaps of a requirement are replaced one after the other. -/
def Relaid (a b : String) : Prop := Relation.ReflTransGen Edit a.toList b.toList

/-- Requirements that differ in the words that are quoted of them at most. -/
structure Alike (a b : Requirement) : Prop where
  /-- They have one normal form. -/
  text : a.text = b.text
  /-- They admit the same versions. -/
  admits : ∀ v, a.admits v = b.admits v
  /-- They complain of the same sorts of things, in the same order. -/
  kinds : a.problems.map Problem.kind = b.problems.map Problem.kind

/-- A function of a list whose members count by what `f` says of them only. -/
theorem map_eq_of_map_eq {α β γ : Type} {f : α → β} {g g' : α → γ}
    (hg : ∀ x y, f x = f y → g x = g' y) : ∀ {xs ys : List α}, xs.map f = ys.map f →
      xs.map g = ys.map g'
  | [], [], _ => rfl
  | x :: xs, y :: ys, h => by
    rw [List.map_cons, List.map_cons] at h
    obtain ⟨hhead, htail⟩ := List.cons.inj h
    rw [List.map_cons, List.map_cons, hg x y hhead, map_eq_of_map_eq hg htail]

/-- Requirements whose clauses have the same pieces are read alike. -/
theorem alike_of_pieces {a b : String} (ha : ¬ IsBlank a) (hb : ¬ IsBlank b)
    (h : (alternatives a.toList).map pieces = (alternatives b.toList).map pieces) :
    Alike (ofText a) (ofText b) := by
  have hconstraints : (alternatives a.toList).map Clause.constraint =
      (alternatives b.toList).map Clause.constraint :=
    map_eq_of_map_eq (fun _ _ => constraint_congr) h
  -- the two trees differ in their labels only
  have hbare : (ofText a).constraint.bare = (ofText b).constraint.bare := by
    rw [constraint_ofText ha, constraint_ofText hb, Constraint.bare_relabel,
      Constraint.bare_relabel, hconstraints]
  refine ⟨?text, fun v => ?admits, ?kinds⟩
  case text =>
    rw [Requirement.text, Requirement.text, ← Constraint.text_bare, hbare, Constraint.text_bare]
  case admits =>
    rw [Requirement.admits, Requirement.admits, ← Constraint.admits_bare, hbare,
      Constraint.admits_bare]
  case kinds =>
    rw [problems_ofText ha, problems_ofText hb, List.map_flatMap, List.map_flatMap,
      List.flatMap_def, List.flatMap_def]
    exact congrArg List.flatten (map_eq_of_map_eq (fun _ _ => kinds_congr _ _) h)

/-- The text of the whole is kept as it was given. -/
theorem pretty_ofText (text : String) : (ofText text).constraint.pretty = text := by
  by_cases h : IsBlank text
  · rw [ofText_of_isBlank h]
    rfl
  · rw [constraint_ofText h]
    generalize Constraint.combine .any _ = tree
    cases tree <;> rfl

/-- **Layout does not matter.**  Whatever is done to the gaps of a requirement, it is read as it was
as long as its bars are what they were; and it is quoted as it stands. -/
theorem layout_free :
    (∀ {a b : String}, Relaid a b → ¬ IsBlank a → ¬ IsBlank b →
      bars a.toList = bars b.toList → Alike (ofText a) (ofText b)) ∧
    ∀ text : String, (ofText text).constraint.pretty = text := by
  refine ⟨fun {a b} hrelaid ha hb hbars => alike_of_pieces ha hb ?_, pretty_ofText⟩
  rw [map_pieces_alternatives, map_pieces_alternatives, hbars, columns_eq_of_edits hrelaid]

/-- A lone sign, a range and two bars: gaps are replaced inside and at the ends of both clauses. -/
theorem layout_free_spaced :
    Relaid "> 7 8 - 9||x" ">\t7 8 ,- 9 || x," ∧
    ¬ IsBlank "> 7 8 - 9||x" ∧ ¬ IsBlank ">\t7 8 ,- 9 || x," ∧
    bars "> 7 8 - 9||x".toList = bars ">\t7 8 ,- 9 || x,".toList ∧
    Alike (ofText "> 7 8 - 9||x") (ofText ">\t7 8 ,- 9 || x,") := by
  -- the gaps are looked through one character after the other
  have hgap {gap : List Char} (h : gap.all isSeparator = true) :
      ∀ c ∈ gap, isSeparator c = true := List.all_eq_true.mp h
  have hbar {c : Char} (hc : c ∈ some '|') : c = '|' := (Option.some.inj hc).symm
  have hsign : Edit "> 7 8 - 9||x".toList ">\t7 8 - 9||x".toList :=
    @Edit.between ['>'] [' '] ['\t'] "7 8 - 9||x".toList (by decide) (by decide) (hgap rfl)
      (hgap rfl)
  have hrange : Edit ">\t7 8 - 9||x".toList ">\t7 8 ,- 9||x".toList :=
    @Edit.between ">\t7 8".toList [' '] [' ', ','] "- 9||x".toList (by decide) (by decide)
      (hgap rfl) (hgap rfl)
  have hbefore : Edit ">\t7 8 ,- 9||x".toList ">\t7 8 ,- 9 ||x".toList :=
    @Edit.finish ">\t7 8 ,- 9".toList [] [' '] "||x".toList (fun _ => hbar) (hgap rfl) (hgap rfl)
  have hbehind : Edit ">\t7 8 ,- 9 ||x".toList ">\t7 8 ,- 9 || x".toList :=
    @Edit.start ">\t7 8 ,- 9 ||".toList [] [' '] "x".toList (fun _ => hbar) (hgap rfl) (hgap rfl)
  have hend : Edit ">\t7 8 ,- 9 || x".toList ">\t7 8 ,- 9 || x,".toList :=
    @Edit.finish ">\t7 8 ,- 9 || x".toList [] [','] [] nofun (hgap rfl) (hgap rfl)
  have hrelaid : Relaid "> 7 8 - 9||x" ">\t7 8 ,- 9 || x," :=
    ((((Relation.ReflTransGen.single hsign).tail hrange).tail hbefore).tail hbehind).tail hend
  have ha : ¬ IsBlank "> 7 8 - 9||x" := fun h => absurd (h '>' (by decide)) (by decide)
  have hb : ¬ IsBlank ">\t7 8 ,- 9 || x," := fun h => absurd (h '>' (by decide)) (by decide)
  exact ⟨hrelaid, ha, hb, by decide, layout_free.1 hrelaid ha hb (by decide)⟩

end Requirement
end ReleaseMatrix
