/-
  Reasons — what is wrong with an atom, and two ways out that are never taken.

  Patterns take the flag off an atom, take an operator off the rest, and match the literal behind it.
  Six ways lead out of this reading, two of them for what should not happen:

      the operator pattern does not match     only a line break could do this, and no token has one
      the operator is `~>`                    invalid operator
      nothing stands behind it                empty version
      the literal pattern does not match      invalid version
      the operator has no name                no operator of the pattern is without one
      else                                    the atom is read

  1. **Patterns** — `readByPatterns`, with a way of its own for each of the two; `settle_eq`.
  2. **Problems** — `Fault`, what can be wrong with an atom; `readAtom_eq_error_iff`.
  3. **Atoms of a clause** — `atom_settled_for_its_reason`.
-/
import ReleaseMatrix.Proofs.Literal.Matching
import ReleaseMatrix.Proofs.Requirement.Gaps
import ReleaseMatrix.Proofs.Requirement.SignPattern
import ReleaseMatrix.Proofs.Requirement.Tokens

namespace ReleaseMatrix.Clause.Token

open Sign (Leads operators)

/-! ## Patterns -/

/-- How the reading of an atom ends. -/
inductive Ending where
  /-- It is read, or it is refused for a reason. -/
  | settled (result : Except Problem Constraint)
  /-- The operator pattern does not match. -/
  | unmatched (problem : Problem)
  /-- The operator has no name. -/
  | unknown (problem : Problem)

/-- What becomes of an operator and the literal behind it. -/
def settle (part : String) (operator literal : List Char) : Ending :=
  if operator = ['~', '>'] then
    .settled (.error (.invalidOperator part (String.ofList operator)))
  else if literal = [] then .settled (.error (.emptyVersion part))
  else
    match Literal.matched? literal with
    | none => .settled (.error (.invalidVersion part (String.ofList literal)))
    | some l =>
      if operator = ['~'] then .settled (.ok l.tilde)
      else if operator = ['^'] then .settled (.ok l.caret)
      else
        match Operator.read (String.ofList operator) with
        | .ok op => .settled (.ok (l.compared op))
        | .error _ => .unknown (.invalidOperator part (String.ofList operator))

/-- Reads an atom by the patterns for flags, operators and literals. -/
def readByPatterns (atom : List Char) : Ending :=
  let part := String.ofList atom
  let stripped := match Stability.flagPattern.removeFirst true atom with
    | [] => ['*']
    | rest => rest
  match (Sign.operatorPattern stripped.length).find? stripped with
  | none => .unmatched (.invalidVersion part (String.ofList stripped))
  | some groups =>
    settle part ((groups.lookup 1).getD []) (Text.trim ((groups.lookup 2).getD []))

/-- What becomes of a sign and the literal behind it. -/
def verdict (part : String) (sign : Sign) (literal : List Char) : Except Problem Constraint :=
  if sign = .tildeArrow then .error (.invalidOperator part "~>")
  else if literal = [] then .error (.emptyVersion part)
  else
    match (Literal.read? literal).bind sign.constraint? with
    | some c => .ok c
    | none => .error (.invalidVersion part (String.ofList literal))

theorem readAtom_eq_verdict (atom : List Char) : readAtom atom =
    verdict (String.ofList atom) (Sign.split (body atom)).1 (Sign.split (body atom)).2 := rfl

/-- **No operator of a sign is without a name**: it is settled as the sign is. -/
theorem settle_eq (part : String) {spelling : String} {sign : Sign} (literal : List Char)
    (h : (spelling, sign) ∈ Sign.spellings) :
    settle part spelling.toList literal = .settled (verdict part sign literal) := by
  obtain ⟨htilde, hcaret, harrow⟩ := Sign.special_of_mem_spellings _ h
  have hmatched := Literal.matched?_eq_read? literal
  unfold settle verdict
  rw [hmatched, String.ofList_toList]
  by_cases hrefused : sign = .tildeArrow
  · have hspelling : spelling = "~>" := String.toList_inj.mp (harrow.mp hrefused)
    rw [hspelling, hrefused]
    rfl
  · rw [if_neg fun h' => hrefused (harrow.mpr h'), if_neg hrefused]
    by_cases hnone : literal = []
    · rw [if_pos hnone, if_pos hnone]
    · rw [if_neg hnone, if_neg hnone]
      cases Literal.read? literal with
      | none => rfl
      | some l =>
        cases sign with
        | compare op =>
          -- only a comparison looks its operator up by name
          have hname := Sign.read_of_mem_spellings h
          simp only [reduceCtorEq, false_iff] at htilde hcaret
          simp [htilde, hcaret, hname, Sign.constraint?]
        | tilde => simp [htilde.mp rfl, Sign.constraint?]
        | caret => simp [hcaret.mp rfl, Sign.constraint?]
        | tildeArrow => exact absurd rfl hrefused

/-! ## Problems -/

/-- **The three ways to fail**, each of them for a reason that leaves the others out. -/
theorem verdict_eq_error_iff {part : String} {sign : Sign} {literal : List Char} {p : Problem} :
    verdict part sign literal = .error p ↔
      (sign = .tildeArrow ∧ p = .invalidOperator part "~>") ∨
      (sign ≠ .tildeArrow ∧ literal = [] ∧ p = .emptyVersion part) ∨
      (sign ≠ .tildeArrow ∧ literal ≠ [] ∧ Literal.read? literal = none ∧
        p = .invalidVersion part (String.ofList literal)) := by
  unfold verdict
  by_cases harrow : sign = .tildeArrow
  · simp [harrow, eq_comm]
  · by_cases hne : literal = []
    · simp [harrow, hne, eq_comm]
    · cases hread : Literal.read? literal with
      | none => simp [harrow, hne, eq_comm]
      | some l => cases sign <;> simp_all [Sign.constraint?]

/-- What is wrong with an atom, by what is left of it without its flag. -/
inductive Fault (atom : List Char) : Problem → Prop where
  /-- It begins with `~>`. -/
  | arrow (h : ['~', '>'] <+: body atom) :
      Fault atom (.invalidOperator (String.ofList atom) "~>")
  /-- It is one of the other operators. -/
  | bare (h : body atom ∈ operators) (harrow : body atom ≠ ['~', '>']) :
      Fault atom (.emptyVersion (String.ofList atom))
  /-- It is neither, and what follows its longest operator is no accepted literal. -/
  | illegible {operator literal : List Char} (harrow : ¬ ['~', '>'] <+: body atom)
      (hbare : body atom ∉ operators) (hleads : Leads (body atom) operator literal)
      (hread : Literal.read? literal = none) :
      Fault atom (.invalidVersion (String.ofList atom) (String.ofList literal))

/-- Without its flag an atom is never empty. -/
theorem body_ne_nil (atom : List Char) : body atom ≠ [] := by
  unfold body
  split
  case h_1 => exact List.cons_ne_nil _ _
  case h_2 hne => exact fun h => hne h

/-- The sign is `~>` iff the text begins with it. -/
theorem split_eq_tildeArrow_iff {cs : List Char} :
    (Sign.split cs).1 = .tildeArrow ↔ ['~', '>'] <+: cs := by
  obtain ⟨spelling, hmem, hleads⟩ := Sign.leads_split cs
  have harrow := (Sign.special_of_mem_spellings _ hmem).2.2
  rw [harrow]
  constructor
  · exact fun h => h ▸ hleads.begins
  · rintro ⟨behind, rfl⟩
    exact (hleads.unique (Sign.leads_two (by decide) behind)).1

/-- **An atom is refused for what is wrong with it, and only for this.** -/
theorem readAtom_eq_error_iff {atom : List Char} {p : Problem} :
    readAtom atom = .error p ↔ Fault atom p := by
  obtain ⟨spelling, -, hleads⟩ := Sign.leads_split (body atom)
  have hbare := hleads.behind_eq_nil_iff (body_ne_nil atom)
  rw [readAtom_eq_verdict, verdict_eq_error_iff, Ne, split_eq_tildeArrow_iff, Ne, hbare]
  constructor
  · -- the fault is the one that leaves the others out
    rintro (⟨harrow, rfl⟩ | ⟨harrow, hmem, rfl⟩ | ⟨harrow, hmem, hread, rfl⟩)
    · exact .arrow harrow
    · exact .bare hmem fun h => harrow (h ▸ List.prefix_refl _)
    · exact .illegible harrow hmem hleads hread
  · rintro (harrow | ⟨hmem, harrow⟩ | ⟨harrow, hmem, hother, hread⟩)
    · exact .inl ⟨harrow, rfl⟩
    · refine .inr (.inl ⟨fun h => ?_, hmem, rfl⟩)
      -- an operator that begins with this one is this one
      have hends : ∀ op ∈ operators, ['~', '>'] <+: op → op = ['~', '>'] := by decide
      exact harrow (hends _ hmem h)
    · obtain ⟨-, rfl⟩ := hother.unique hleads
      exact .inr (.inr ⟨harrow, hmem, hread, rfl⟩)

/-- **An atom with which nothing is wrong is read.** -/
theorem exists_readAtom_iff {atom : List Char} : (∃ c, readAtom atom = .ok c) ↔
    ¬ ['~', '>'] <+: body atom ∧ body atom ∉ operators ∧
      ∃ operator literal, Leads (body atom) operator literal ∧
        (Literal.read? literal).isSome = true := by
  obtain ⟨spelling, -, hleads⟩ := Sign.leads_split (body atom)
  constructor
  · rintro ⟨c, hok⟩
    -- what is read has no fault
    have hnone (p : Problem) : ¬ Fault atom p := by
      intro hfault
      rw [readAtom_eq_error_iff.mpr hfault] at hok
      cases hok
    have harrow : ¬ ['~', '>'] <+: body atom := fun h => hnone _ (.arrow h)
    have hbare : body atom ∉ operators := fun h =>
      hnone _ (.bare h fun heq => harrow (heq ▸ List.prefix_refl _))
    refine ⟨harrow, hbare, _, _, hleads, ?_⟩
    cases hread : Literal.read? (Sign.split (body atom)).2 with
    | none => exact absurd (Fault.illegible harrow hbare hleads hread) (hnone _)
    | some => rfl
  · rintro ⟨harrow, hbare, operator, literal, hother, hsome⟩
    cases hend : readAtom atom with
    | ok c => exact ⟨c, rfl⟩
    | error p =>
      -- each fault contradicts one of the three
      cases readAtom_eq_error_iff.mp hend with
      | arrow h => exact absurd h harrow
      | bare h => exact absurd h hbare
      | illegible _ _ hleads hread =>
        obtain ⟨-, rfl⟩ := hother.unique hleads
        rw [hread] at hsome
        cases hsome

/-! ## Atoms of a clause -/

/-- The body of an atom holds no separator, if the atom holds none. -/
theorem plain_body {atom : List Char} (h : ∀ c ∈ atom, isSeparator c = false) :
    ∀ c ∈ body atom, isSeparator c = false := by
  by_cases hnil : Stability.drop atom = []
  · rw [body_of_eq_nil hnil]
    exact List.forall_mem_singleton.mpr rfl
  · rw [body_of_ne_nil hnil]
    exact fun c hc => h c ((Stability.drop_prefix atom).subset hc)

/-- **The patterns read an atom without separators as it is read from left to right.** -/
theorem readByPatterns_eq {atom : List Char} (h : ∀ c ∈ atom, isSeparator c = false) :
    readByPatterns atom = .settled (readAtom atom) := by
  obtain ⟨spelling, hmem, hleads⟩ := Sign.leads_split (body atom)
  have hfind := Sign.find?_operatorPattern (plain_body h) hleads
  -- the pattern trims the literal, but an atom has no blank to lose
  have hblank : ∀ c ∈ (Sign.split (body atom)).2, Text.isBlank c = false := by
    intro c hc
    have hmem : c ∈ body atom := by
      rw [hleads.parts]
      exact List.mem_append_right _ hc
    exact isBlank_eq_false_of_plain (plain_body h c hmem)
  have hgroups : readByPatterns atom = settle (String.ofList atom) spelling.toList
      (Text.trim (Sign.split (body atom)).2) := by
    unfold readByPatterns
    rw [Stability.removeFirst_flagPattern]
    show (match (Sign.operatorPattern (body atom).length).find? (body atom) with
      | none => _
      | some groups => _) = _
    rw [hfind]
    by_cases hnone : spelling.toList = []
    · rw [if_pos hnone, hnone]
      rfl
    · rw [if_neg hnone]
      rfl
  rw [hgroups, Text.trim_of_plain hblank, settle_eq _ _ hmem, readAtom_eq_verdict]

/-- A line break in the middle would make the operator pattern fail. -/
example : readByPatterns "8\n9".toList = .unmatched (.invalidVersion "8\n9" "8\n9") := by
  rfl

/-- **An atom of a clause is refused for its reason, and no other way out is taken.**  Without its
flag, it has an invalid operator iff it begins with `~>`, an empty version iff it is one of the other
operators, an invalid version iff it is neither and what follows the longest operator that it begins
with is no accepted literal, and is read otherwise.  Reading by patterns comes to the same end: on an
atom the operator pattern always matches, and an operator that is asked for its name has one.  What an
atom is refused for is recorded in any requirement that has its clause. -/
theorem atom_settled_for_its_reason {clause atom : List Char}
    (h : Token.atom atom ∈ tokens clause) :
    readByPatterns atom = .settled (readAtom atom) ∧
    (∀ part operator, readAtom atom = .error (.invalidOperator part operator) ↔
      part = String.ofList atom ∧ operator = "~>" ∧ ['~', '>'] <+: body atom) ∧
    (∀ part, readAtom atom = .error (.emptyVersion part) ↔
      part = String.ofList atom ∧ body atom ∈ operators ∧ body atom ≠ ['~', '>']) ∧
    (∀ part version, readAtom atom = .error (.invalidVersion part version) ↔
      part = String.ofList atom ∧ ¬ ['~', '>'] <+: body atom ∧ body atom ∉ operators ∧
        ∃ operator literal, Leads (body atom) operator literal ∧
          Literal.read? literal = none ∧ version = String.ofList literal) ∧
    ((∃ c, readAtom atom = .ok c) ↔
      ¬ ['~', '>'] <+: body atom ∧ body atom ∉ operators ∧
        ∃ operator literal, Leads (body atom) operator literal ∧
          (Literal.read? literal).isSome = true) ∧
    ∀ text, clause ∈ alternatives text.toList →
      ∀ p, readAtom atom = .error p → p ∈ (Requirement.ofText text).problems := by
  have hplain : ∀ c ∈ atom, isSeparator c = false := plain_of_mem_tokens h
  refine ⟨readByPatterns_eq hplain, fun part operator => ?_, fun part => ?_,
    fun part version => ?_, exists_readAtom_iff, fun text hclause p hp => ?_⟩
  · rw [readAtom_eq_error_iff]
    constructor
    · rintro ⟨harrow⟩
      exact ⟨rfl, rfl, harrow⟩
    · rintro ⟨rfl, rfl, harrow⟩
      exact .arrow harrow
  · rw [readAtom_eq_error_iff]
    constructor
    · rintro (_ | ⟨hbare, harrow⟩)
      exact ⟨rfl, hbare, harrow⟩
    · rintro ⟨rfl, hbare, harrow⟩
      exact .bare hbare harrow
  · rw [readAtom_eq_error_iff]
    constructor
    · rintro (_ | _ | ⟨harrow, hbare, hleads, hread⟩)
      exact ⟨rfl, harrow, hbare, _, _, hleads, hread, rfl⟩
    · rintro ⟨rfl, harrow, hbare, operator, literal, hleads, hread, rfl⟩
      exact .illegible harrow hbare hleads hread
  · refine Requirement.mem_problems_ofText hclause h ?_
    have hread : (Token.atom atom).read = .error p := hp
    rw [problem?, hread]

/-- The longest operator of `=>7` is `=`, so `>7` should be a literal: this is what is recorded. -/
theorem atom_settled_for_its_reason_reversed :
    let atom := "=>7@dev".toList
    let clause := " =>7@dev, ~>5".toList
    Token.atom atom ∈ tokens clause ∧
    readByPatterns atom = .settled (.error (.invalidVersion "=>7@dev" ">7")) ∧
    (∃ operator literal, Leads (body atom) operator literal ∧
      Literal.read? literal = none ∧ ">7" = String.ofList literal) ∧
    Problem.invalidVersion "=>7@dev" ">7" ∈
      (Requirement.ofText "8 || =>7@dev, ~>5").problems := by
  intro atom clause
  have hatom : Token.atom atom ∈ tokens clause := by
    decide +kernel
  have hread : readAtom atom = .error (.invalidVersion "=>7@dev" ">7") := by
    rfl
  obtain ⟨hpatterns, -, -, hinvalid, -, hrecorded⟩ := atom_settled_for_its_reason hatom
  refine ⟨hatom, ?_, ?_, ?_⟩
  · rw [hpatterns, hread]
  · obtain ⟨-, -, -, hleads⟩ := (hinvalid _ _).mp hread
    exact hleads
  · have hclause : clause ∈ alternatives "8 || =>7@dev, ~>5".toList := by
      decide +kernel
    exact hrecorded _ hclause _ hread

end ReleaseMatrix.Clause.Token
