/-
  What a requirement admits — in terms of its clauses, and these in terms of their tokens.

  A requirement that is not blank is an alternative of clauses, a clause a conjunction of tokens,
  and both readings survive the simplification of the tree:

      requirement  admits v   iff   some clause admits v
      clause       admits v   iff   it has tokens, and each of them admits v
      token        admits v   iff   it can be read, and what is read admits v

  What was not understood is collected alongside in the same order, so a clause with a problem
  admits nothing (`Clause.admits_eq_false_of_problems`).

  The clauses may be cut from the text as it stands or from the trimmed one (`admits_ofText`,
  `problems_ofText`).

  Either a clause has tokens and all of them are understood, or it sinks: the requirement complains
  of it and it admits nothing (`sinks_iff`).
-/
import ReleaseMatrix.Proofs.Constraint.Meaning
import ReleaseMatrix.Proofs.Requirement.Clause
import ReleaseMatrix.Requirement

namespace ReleaseMatrix

namespace Clause

/-! ## Tokens -/

namespace Token

theorem problem?_eq_none_iff {t : Token} : t.problem? = none ↔ ∃ c, t.read = .ok c := by
  unfold problem?
  cases t.read <;> simp

theorem admits_of_read {t : Token} {c : Constraint} (h : t.read = .ok c) (v : Version) :
    t.constraint.admits v = c.admits v := by
  rw [constraint, h, Constraint.admits_relabel]

/-- A token that was not understood admits nothing. -/
theorem admits_eq_false_of_problem {t : Token} (h : t.problem? ≠ none) (v : Version) :
    t.constraint.admits v = false := by
  cases hread : t.read with
  | ok c => exact absurd (problem?_eq_none_iff.mpr ⟨c, hread⟩) h
  | error p => rw [constraint, hread, Constraint.admits_relabel, Constraint.admits_nothing]

end Token

/-- All of the tokens are understood. -/
def Sound (ts : List Token) : Prop := ∀ t ∈ ts, t.problem? = none

instance (ts : List Token) : Decidable (Sound ts) :=
  inferInstanceAs (Decidable (∀ t ∈ ts, t.problem? = none))

theorem sound_nil : Sound [] := fun _ ht => absurd ht List.not_mem_nil

theorem sound_cons {t : Token} {ts : List Token} :
    Sound (t :: ts) ↔ t.problem? = none ∧ Sound ts :=
  List.forall_mem_cons

theorem sound_append {ts us : List Token} : Sound (ts ++ us) ↔ Sound ts ∧ Sound us :=
  List.forall_mem_append

/-! ## Clauses -/

/-- **A clause admits what all of its tokens admit**, and it must have some. -/
theorem admits_constraint (clause : List Char) (v : Version) :
    (constraint clause).admits v = true ↔
      tokens clause ≠ [] ∧ ∀ t ∈ tokens clause, t.constraint.admits v = true := by
  unfold constraint
  split
  case h_1 hnone => simp [hnone]
  case h_2 hsome =>
    rw [Constraint.admits_combine_all, List.all_map, List.all_eq_true]
    exact (and_iff_right hsome).symm

/-- Nothing is complained of in a clause that has tokens and understands them. -/
theorem problems_eq_nil_iff {whole : String} {clause : List Char} :
    problems whole clause = [] ↔ tokens clause ≠ [] ∧ Sound (tokens clause) := by
  unfold problems
  split
  case h_1 hnone => simp [hnone]
  case h_2 hsome =>
    rw [List.filterMap_eq_nil_iff]
    exact (and_iff_right hsome).symm

/-- A problem of a clause that has tokens is a problem of one of them. -/
theorem exists_of_problems {whole : String} {clause : List Char}
    (h : problems whole clause ≠ []) (hne : tokens clause ≠ []) :
    ∃ t ∈ tokens clause, t.problem? ≠ none := by
  rw [Ne, problems_eq_nil_iff, not_and] at h
  simpa [Sound] using h hne

/-- **A clause with a problem admits nothing.** -/
theorem admits_eq_false_of_problems {whole : String} {clause : List Char}
    (h : problems whole clause ≠ []) (v : Version) : (constraint clause).admits v = false := by
  rw [Bool.eq_false_iff]
  intro hadmits
  obtain ⟨hne, hall⟩ := (admits_constraint clause v).mp hadmits
  obtain ⟨t, ht, hproblem⟩ := exists_of_problems h hne
  have hfalse := Token.admits_eq_false_of_problem hproblem v
  rw [hall t ht] at hfalse
  cases hfalse

/-- Only an empty clause speaks of the requirement that it stands in. -/
theorem problems_eq_of_tokens {whole₁ whole₂ : String} {clause : List Char}
    (h : tokens clause ≠ []) : problems whole₁ clause = problems whole₂ clause := by
  unfold problems
  split
  case h_1 hnone => exact absurd hnone h
  case h_2 => rfl

theorem tokens_congr {a b : List Char} (h : pieces a = pieces b) : tokens a = tokens b := by
  rw [tokens, tokens, h]

theorem constraint_congr {a b : List Char} (h : pieces a = pieces b) :
    constraint a = constraint b := by
  rw [constraint, constraint, tokens_congr h]

theorem problems_congr (whole : String) {a b : List Char} (h : pieces a = pieces b) :
    problems whole a = problems whole b := by
  rw [problems, problems, tokens_congr h]

end Clause

namespace Requirement

open Clause

/-! ## Requirements -/

/-- The text holds nothing but blanks. -/
def IsBlank (text : String) : Prop := ∀ c ∈ text.toList, Text.isBlank c = true

/-- The text without the blanks at its ends, as problems quote it. -/
def trimmed (text : String) : String := String.ofList (Text.trim text.toList)

theorem ofText_of_isBlank {text : String} (h : IsBlank text) :
    ofText text = ⟨.all (some text), []⟩ := by
  rw [ofText, Text.trim_eq_nil_iff.mpr h]

/-- The tree of a requirement: its clauses, any of which may be met. -/
theorem constraint_ofText {text : String} (h : ¬ IsBlank text) :
    (ofText text).constraint =
      (Constraint.combine .any ((alternatives text.toList).map Clause.constraint)).relabel
        (some text) := by
  unfold ofText
  split
  case h_1 hnil => exact absurd (Text.trim_eq_nil_iff.mp hnil) h
  case h_2 =>
    show (Constraint.combine .any ((alternatives (Text.trim text.toList)).map
      Clause.constraint)).relabel (some text) = _
    rw [map_alternatives_trim fun _ _ => constraint_congr]

/-- **A requirement admits what one of its clauses admits.** -/
theorem admits_ofText {text : String} (h : ¬ IsBlank text) (v : Version) :
    (ofText text).admits v =
      (alternatives text.toList).any fun clause => (Clause.constraint clause).admits v := by
  have hne : (alternatives text.toList).map Clause.constraint ≠ [] := by
    rw [Ne, List.map_eq_nil_iff]
    exact alternatives_ne_nil _
  rw [admits, constraint_ofText h, Constraint.admits_relabel, Constraint.admits_combine_any hne,
    List.any_map]
  rfl

/-- The problems of a requirement are those of its clauses, in their order. -/
theorem problems_ofText {text : String} (h : ¬ IsBlank text) :
    (ofText text).problems = (alternatives text.toList).flatMap (Clause.problems (trimmed text)) := by
  unfold ofText
  split
  case h_1 hnil => exact absurd (Text.trim_eq_nil_iff.mp hnil) h
  case h_2 =>
    show (alternatives (Text.trim text.toList)).flatMap (Clause.problems (trimmed text)) = _
    rw [List.flatMap_def, List.flatMap_def]
    exact congrArg List.flatten
      (map_alternatives_trim (fun _ _ => problems_congr (trimmed text)) text.toList)

/-- Nothing is complained of iff every clause has tokens and they are all understood. -/
theorem problems_ofText_eq_nil_iff {text : String} (h : ¬ IsBlank text) :
    (ofText text).problems = [] ↔
      ∀ clause ∈ alternatives text.toList, tokens clause ≠ [] ∧ Sound (tokens clause) := by
  rw [problems_ofText h, List.flatMap_eq_nil_iff]
  exact forall₂_congr fun clause _ => problems_eq_nil_iff

/-- A text with a token in one of its clauses is not blank. -/
theorem not_isBlank_of_alternative {text : String} {clause : List Char}
    (hmem : clause ∈ alternatives text.toList) (htokens : tokens clause ≠ []) :
    ¬ IsBlank text := by
  -- a blank text has no bars, so its one clause has no tokens
  intro hblank
  have hbar : '|' ∉ text.toList := fun hbar => absurd (hblank '|' hbar) (by decide)
  rw [alternatives_of_barless hbar, List.mem_singleton] at hmem
  subst hmem
  exact htokens (tokens_eq_nil_iff.mpr fun c hc => isSeparator_of_isBlank (hblank c hc))

/-- What was not understood in a token of a clause is complained of. -/
theorem mem_problems_ofText {text : String} {clause : List Char} {t : Token} {p : Problem}
    (hmem : clause ∈ alternatives text.toList) (ht : t ∈ tokens clause) (hp : t.problem? = some p) :
    p ∈ (ofText text).problems := by
  have htokens : tokens clause ≠ [] := List.ne_nil_of_mem ht
  rw [problems_ofText (not_isBlank_of_alternative hmem htokens)]
  refine List.mem_flatMap_of_mem hmem ?_
  unfold Clause.problems
  split
  case h_1 hnone => exact absurd hnone htokens
  case h_2 => exact List.mem_filterMap.mpr ⟨t, ht, hp⟩

/-- A clause of the requirement is complained of, and admits nothing. -/
structure Sinks (text : String) (clause : List Char) : Prop where
  complains : ∃ p ∈ Clause.problems (trimmed text) clause, p ∈ (ofText text).problems
  admits : ∀ v, (Clause.constraint clause).admits v = false

/-- A clause with tokens sinks iff one of them is not understood. -/
theorem sinks_iff {text : String} {clause : List Char} (hmem : clause ∈ alternatives text.toList)
    (htokens : tokens clause ≠ []) : Sinks text clause ↔ ¬ Sound (tokens clause) := by
  have hsound : Clause.problems (trimmed text) clause = [] ↔ Sound (tokens clause) :=
    problems_eq_nil_iff.trans (and_iff_right htokens)
  constructor
  · rintro ⟨⟨p, hp, -⟩, -⟩ hall
    rw [hsound.mpr hall] at hp
    exact List.not_mem_nil hp
  · intro hbad
    have hproblems : Clause.problems (trimmed text) clause ≠ [] := fun h => hbad (hsound.mp h)
    have hblank := not_isBlank_of_alternative hmem htokens
    obtain ⟨p, hp⟩ := List.exists_mem_of_ne_nil _ hproblems
    refine ⟨⟨p, hp, ?_⟩, admits_eq_false_of_problems hproblems⟩
    rw [problems_ofText hblank]
    exact List.mem_flatMap_of_mem hmem hp

/-- A name satisfies a requirement by the version that it holds. -/
theorem satisfiedBy_iff {r : Requirement} {name : String} :
    r.satisfiedBy name = true ↔ ∃ v, Version.extract? name = some v ∧ r.admits v = true := by
  unfold satisfiedBy
  cases Version.extract? name <;> simp

/-! ## Requirements of one clause -/

theorem admits_ofText_barless {text : String} (h : ¬ IsBlank text) (hbar : '|' ∉ text.toList)
    (v : Version) : (ofText text).admits v = (Clause.constraint text.toList).admits v := by
  rw [admits_ofText h, alternatives_of_barless hbar, List.any_cons, List.any_nil, Bool.or_false]

theorem problems_ofText_barless {text : String} (h : ¬ IsBlank text)
    (hbar : '|' ∉ text.toList) :
    (ofText text).problems = Clause.problems (trimmed text) text.toList := by
  rw [problems_ofText h, alternatives_of_barless hbar, List.flatMap_singleton]

/-- A text with a token is not blank. -/
theorem not_isBlank_of_tokens {text : String} (h : tokens text.toList ≠ []) : ¬ IsBlank text :=
  fun hblank => h (tokens_eq_nil_iff.mpr fun c hc => isSeparator_of_isBlank (hblank c hc))

end Requirement
end ReleaseMatrix
