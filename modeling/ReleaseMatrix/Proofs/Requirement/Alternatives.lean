/-
  Alternatives — a requirement is the disjunction of its clauses, each read on its own.

  Where a text is cut is a relation, `Cut`: at each `||` from left to right, and at a `|` that no
  second one follows.  There is exactly one cut of every text, and reading finds it (`cut_iff`).

  A clause that is read alone, as a requirement of its own, means what it means among others:

      a || b || c    admits v   iff   a, b or c has a token and, alone, admits v
      a || b || c    complains of what a, b and c complain of alone, in this order

  The one difference is a clause without a token.  Alone a blank text admits everything, while
  among alternatives it admits nothing and is complained of.
-/
import ReleaseMatrix.Proofs.Requirement.Meaning

namespace ReleaseMatrix

/-! ## Where a text is cut -/

namespace Clause

/-- The parts of a text between its bars, read from left to right. -/
inductive Cut : List Char → List (List Char) → Prop where
  /-- Nothing is left to cut. -/
  | last {clause : List Char} (hclause : '|' ∉ clause) : Cut clause [clause]
  /-- Two bars are one cut. -/
  | double {clause rest : List Char} {parts : List (List Char)} (hclause : '|' ∉ clause)
      (hrest : Cut rest parts) : Cut (clause ++ '|' :: '|' :: rest) (clause :: parts)
  /-- A bar is a cut by itself if no second one follows. -/
  | single {clause rest : List Char} {parts : List (List Char)} (hclause : '|' ∉ clause)
      (hbar : rest.head? ≠ some '|') (hrest : Cut rest parts) :
      Cut (clause ++ '|' :: rest) (clause :: parts)

namespace Cut

/-- A character in front belongs to the first part. -/
theorem consFirst {c : Char} (hc : c ≠ '|') {cs : List Char} {parts : List (List Char)}
    (h : Cut cs parts) : Cut (c :: cs) (Text.consFirst c parts) := by
  have hmem {clause : List Char} (hclause : '|' ∉ clause) : '|' ∉ c :: clause := by
    rw [List.mem_cons, not_or]
    exact ⟨Ne.symm hc, hclause⟩
  cases h with
  | last hclause => exact .last (hmem hclause)
  | double hclause hrest => exact .double (hmem hclause) hrest
  | single hclause hbar hrest => exact .single (hmem hclause) hbar hrest

/-- A clause holds no bar. -/
theorem not_mem_of_mem {cs clause : List Char} {parts : List (List Char)} (h : Cut cs parts)
    (hclause : clause ∈ parts) : '|' ∉ clause := by
  induction h with
  | last h => rwa [List.mem_singleton.mp hclause]
  | double h hrest ih | single h hbar hrest ih =>
    rcases List.mem_cons.mp hclause with rfl | hclause
    · exact h
    · exact ih hclause

end Cut

/-- **The clauses are what the bars cut the text into.** -/
theorem cut_alternatives (cs : List Char) : Cut cs (alternatives cs) := by
  fun_induction alternatives cs with
  | case1 => exact .last List.not_mem_nil
  | case2 rest ih => exact @Cut.double [] rest _ List.not_mem_nil ih
  | case3 rest hbar ih =>
    refine @Cut.single [] rest _ List.not_mem_nil ?_ ih
    intro hhead
    obtain ⟨tail, rfl⟩ := List.head?_eq_some_iff.mp hhead
    exact hbar tail rfl
  | case4 c rest hdouble hsingle ih => exact ih.consFirst hsingle

/-- **A text has one cut, and reading finds it.** -/
theorem cut_iff {cs : List Char} {parts : List (List Char)} :
    Cut cs parts ↔ parts = alternatives cs := by
  constructor
  · intro h
    induction h with
    | last hclause => exact (alternatives_of_barless hclause).symm
    | @double clause rest parts hclause hrest ih =>
      obtain ⟨first, others, hbars, happend⟩ :=
        alternatives_barless_append hclause ('|' :: '|' :: rest)
      rw [alternatives] at hbars
      injection hbars with hfirst hothers
      rw [happend, ← hfirst, ← hothers, List.append_nil, ih]
    | @single clause rest parts hclause hbar hrest ih =>
      obtain ⟨first, others, hbars, happend⟩ := alternatives_barless_append hclause ('|' :: rest)
      rw [alternatives] at hbars
      · injection hbars with hfirst hothers
        rw [happend, ← hfirst, ← hothers, List.append_nil, ih]
      · -- a second bar would have been cut off together with the first
        rintro tail rfl
        exact hbar rfl
  · rintro rfl
    exact cut_alternatives cs

end Clause

/-! ## Clauses that are read alone -/

namespace Requirement

open Clause

/-- The clause as a requirement of its own. -/
def ofClause (clause : List Char) : Requirement := ofText (String.ofList clause)

section

variable {clause : List Char} (hbar : '|' ∉ clause)
include hbar

/-- A clause that is not blank, read alone, is that clause and nothing else. -/
theorem admits_ofClause (hblank : ¬ IsBlank (String.ofList clause)) (v : Version) :
    (ofClause clause).admits v = (Clause.constraint clause).admits v := by
  have hadmits := admits_ofText_barless hblank (by rwa [String.toList_ofList]) v
  rwa [String.toList_ofList] at hadmits

theorem problems_ofClause (hblank : ¬ IsBlank (String.ofList clause)) :
    (ofClause clause).problems = Clause.problems (trimmed (String.ofList clause)) clause := by
  have hproblems := problems_ofText_barless hblank (by rwa [String.toList_ofList])
  rwa [String.toList_ofList] at hproblems

/-- What is complained of is not admitted.  A blank clause is no exception: alone, there is nothing
to complain of. -/
theorem admits_ofClause_eq_false (hproblems : (ofClause clause).problems ≠ []) (v : Version) :
    (ofClause clause).admits v = false := by
  have hblank : ¬ IsBlank (String.ofList clause) := by
    intro hblank
    rw [ofClause, ofText_of_isBlank hblank] at hproblems
    exact hproblems rfl
  rw [problems_ofClause hbar hblank] at hproblems
  rw [admits_ofClause hbar hblank]
  exact admits_eq_false_of_problems hproblems v

end

/-! ## A requirement by its clauses -/

/-- The requirement is cut into these clauses, and is what they are alone. -/
structure ReadsByClauses (text : String) (clauses : List (List Char)) : Prop where
  /-- The clauses are the one cut of the text. -/
  cut : ∀ parts, Cut text.toList parts ↔ parts = clauses
  /-- The clauses without tokens are those of blanks and commas. -/
  hollow : ∀ clause, tokens clause = [] ↔ ∀ c ∈ clause, Text.isBlank c = true ∨ c = ','
  /-- A version needs a clause with a token that admits it alone. -/
  admits : ∀ v, (ofText text).admits v = true ↔
    ∃ clause ∈ clauses, tokens clause ≠ [] ∧ (ofClause clause).admits v = true
  /-- Nothing is admitted by a clause that is complained of alone. -/
  sinks : ∀ clause ∈ clauses, (ofClause clause).problems ≠ [] →
    ∀ v, (ofClause clause).admits v = false
  /-- A clause without tokens is complained of as empty, any other one as if it were alone. -/
  problems : (ofText text).problems = clauses.flatMap fun clause =>
    if tokens clause = [] then [.emptyClause (trimmed text)] else (ofClause clause).problems

/-- **A requirement that is not blank is read clause by clause**: no clause changes what another
one admits or is complained of for, however malformed it is. -/
theorem readsByClauses {text : String} (h : ¬ IsBlank text) :
    ReadsByClauses text (alternatives text.toList) := by
  have hbarless (clause : List Char) (hmem : clause ∈ alternatives text.toList) : '|' ∉ clause :=
    (cut_alternatives text.toList).not_mem_of_mem hmem
  have hfilled (clause : List Char) (htokens : tokens clause ≠ []) :
      ¬ IsBlank (String.ofList clause) :=
    not_isBlank_of_tokens (by rwa [String.toList_ofList])
  refine ⟨fun parts => cut_iff, ?hollow, ?admits, ?sinks, ?problems⟩
  case hollow =>
    intro clause
    rw [tokens_eq_nil_iff]
    simp only [isSeparator, Bool.or_eq_true, beq_iff_eq]
  case admits =>
    intro v
    rw [admits_ofText h, List.any_eq_true]
    constructor
    · rintro ⟨clause, hmem, hadmits⟩
      -- a clause that admits a version has tokens, so it may stand alone
      have htokens := ((admits_constraint clause v).mp hadmits).1
      refine ⟨clause, hmem, htokens, ?_⟩
      rwa [admits_ofClause (hbarless clause hmem) (hfilled clause htokens)]
    · rintro ⟨clause, hmem, htokens, hadmits⟩
      rw [admits_ofClause (hbarless clause hmem) (hfilled clause htokens)] at hadmits
      exact ⟨clause, hmem, hadmits⟩
  case sinks =>
    intro clause hmem hproblems
    exact admits_ofClause_eq_false (hbarless clause hmem) hproblems
  case problems =>
    rw [problems_ofText h, List.flatMap_def, List.flatMap_def]
    refine congrArg List.flatten (List.map_congr_left fun clause hmem => ?_)
    split
    case isTrue hnone => rw [Clause.problems, hnone]
    case isFalse hsome =>
      rw [problems_ofClause (hbarless clause hmem) (hfilled clause hsome)]
      exact problems_eq_of_tokens hsome

/-- A word that is no version, a comma and an empty end leave the caret between them alone. -/
theorem readsByClauses_malformed :
    ¬ IsBlank "foo || ^8.1 | , ||" ∧
    ReadsByClauses "foo || ^8.1 | , ||"
      ["foo ".toList, " ^8.1 ".toList, " , ".toList, "".toList] := by
  have hblank : ¬ IsBlank "foo || ^8.1 | , ||" := fun h => absurd (h 'f' (by decide)) (by decide)
  exact ⟨hblank, readsByClauses hblank⟩

end Requirement
end ReleaseMatrix
