/-
  Ranges — two literals with a hyphen between them, and the two comparisons that say the same.

      8.1 - 8.4         >=8.1 <=8.4           8.1.0 ≤ v < 8.5.0
      8.1 - 8.4.2       >=8.1 <=8.4.2         8.1.0 ≤ v ≤ 8.4.2
      * - 8             >=* <=8                       v < 9.0.0

  A range is one token and puts its bounds down itself; the comparisons are two, each of which is
  read for its own and simplified with the other.  Member for member the bounds are the same
  (`combine_compared`), so the trees differ in their labels only, and the normal texts not at all.

  What is no accepted literal, with or without a flag, sinks the clause on either side of a hyphen,
  and so does nothing at all.

  1. **Bounds** — `combine_compared`, and what the two comparisons ask for.
  2. **Tokens** — `tokens_range`, `tokens_spelling`.
  3. **Trees** — `bare_range`, `bare_comparisons`.
  4. **Requirements** — `range_is_two_comparisons`.
-/
import ReleaseMatrix.Proofs.Constraint.Label
import ReleaseMatrix.Proofs.Requirement.Flag

namespace ReleaseMatrix

/-! ## Bounds -/

namespace Literal

/-- **The bounds of a range are those of its comparisons**, by the kinds of the two literals: a side
that leaves everything open has none, and simplification drops it. -/
theorem combine_compared (l k : Literal) :
    Constraint.combine .all [l.compared .greaterOrEqual, k.compared .lessOrEqual] =
      l.hyphen k := by
  cases l <;> cases k <;> rfl

/-- A literal without numbers is related to every version by the reflexive operators. -/
theorem isAny_or_relatesTo_iff {op : Operator} (hop : op ∈ Operator.reflexive) (l : Literal)
    (v : Version) : l.isAny = true ∨ op.RelatesTo l.Cell v ↔ op.RelatesTo l.Cell v := by
  refine or_iff_right_of_imp fun hany => ?_
  rw [eq_any_of_isAny hany]
  exact (relatesTo_any_iff op v).mpr hop

/-- A range admits what lies between its ends, as far as it has any. -/
theorem admits_hyphen {l k : Literal} (hl : l.Bounded) (hk : k.Bounded) (v : Version) :
    (l.hyphen k).admits v = true ↔
      (l.isAny = true ∨ l.floor ≤ v) ∧ (k.isAny = true ∨ ∃ w, k.Cell w ∧ v ≤ w) := by
  have hlow : l.isAny = true ∨ l.floor ≤ v ↔ Operator.greaterOrEqual.RelatesTo l.Cell v := by
    rw [← isAny_or_relatesTo_iff (by decide), relatesTo_cell_iff]
    exact Iff.rfl
  have hreflexive : Operator.lessOrEqual ∈ Operator.reflexive := by decide
  have hhigh : (k.isAny = true ∨ ∃ w, k.Cell w ∧ v ≤ w) ↔
      Operator.lessOrEqual.RelatesTo k.Cell v := isAny_or_relatesTo_iff hreflexive k v
  rw [hlow, hhigh, ← admits_compared hl, ← admits_compared hk, ← combine_compared,
    Constraint.admits_combine_all]
  simp

/-! ## Accepted literals as pieces -/

section

variable {cs : List Char} {l : Literal} (h : read? cs = some l)
include h

theorem pieces_of_read? : Clause.pieces cs = [cs] :=
  Clause.pieces_of_plain (ne_nil_of_read? h) fun c hc => (plain_of_read? h c hc).1

/-- An accepted literal has no flag. -/
theorem drop_of_read? : Stability.drop cs = cs :=
  Stability.drop_eq_self fun hflag => (plain_of_read? h '@' hflag).2.2 rfl

/-- An accepted literal is no sign. -/
theorem not_standsAlone_of_read? : ¬ Sign.standsAlone cs = true := by
  have hsplit : Sign.split cs = (.compare .equal, cs) :=
    Sign.split_append_literal h ("", .compare .equal) (by decide)
  rw [Sign.standsAlone, hsplit]
  simp

end

end Literal

/-! ## Tokens -/

namespace Clause

/-- No accepted literal stands there, not even behind a flag that is taken off; or nothing does. -/
def Unreadable (side : Option (List Char)) : Prop :=
  ∀ cs ∈ side, Literal.read? (Stability.drop cs) = none

/-- What is an accepted literal as it stands has no flag to take off. -/
theorem Unreadable.not_isSome {cs : List Char} (h : Unreadable (some cs)) :
    ¬ (Literal.read? cs).isSome = true := by
  intro hsome
  obtain ⟨l, hl⟩ := Option.isSome_iff_exists.mp hsome
  have hnone := h cs rfl
  rw [Literal.drop_of_read? hl, hl] at hnone
  cases hnone

theorem Token.bare_of_read {t : Token} {c : Constraint} (h : t.read = .ok c) :
    t.constraint.bare = c.bare := by
  rw [constraint, h, Constraint.bare_relabel]

end Clause

namespace Requirement

open Clause

section

variable {low high : String} {l k : Literal} (hlow : Literal.read? low.toList = some l)
  (hhigh : Literal.read? high.toList = some k)
include hlow hhigh

/-- Two literals with a hyphen between them are one token. -/
theorem tokens_range :
    tokens (low ++ " - " ++ high).toList = [.range low.toList high.toList] := by
  have htext : (low ++ " - " ++ high).toList =
      low.toList ++ [' '] ++ (['-'] ++ [' '] ++ high.toList) := by simp
  have hgap : ∀ c ∈ [' '], isSeparator c = true := List.forall_mem_singleton.mpr (by decide)
  have hhyphen : pieces ['-'] = [['-']] := by decide
  rw [htext, tokens, pieces_join _ _ (by simp) hgap, pieces_join _ _ (by simp) hgap,
    Literal.pieces_of_read? hlow, Literal.pieces_of_read? hhigh, hhyphen]
  exact tokensFrom_range (Literal.not_standsAlone_of_read? hlow)

theorem read_range : (Token.range low.toList high.toList).read = .ok (l.hyphen k) := by
  simp only [Token.read, Token.readRange, hlow, hhigh]

/-- Nothing in it is complained of. -/
theorem isPart_range : IsPart (low ++ " - " ++ high) := by
  rw [isPart_iff, tokens_range hlow hhigh]
  refine ⟨?_, List.cons_ne_nil _ _, fun t ht => ?_⟩
  · have hhyphen : '|' ∉ " - ".toList := by decide
    simp only [String.toList_append, List.mem_append, not_or]
    exact ⟨⟨fun h => (Literal.plain_of_read? hlow _ h).2.1 rfl, hhyphen⟩,
      fun h => (Literal.plain_of_read? hhigh _ h).2.1 rfl⟩
  · rw [List.mem_singleton.mp ht]
    exact Token.problem?_eq_none_iff.mpr ⟨_, read_range hlow hhigh⟩

end

/-- A sign and an accepted literal are a part of their own, of one token. -/
theorem tokens_spelling {spelling literal : String} {sign : Sign} {l : Literal}
    (hspelling : (spelling, sign) ∈ Sign.spellings)
    (hread : Literal.read? literal.toList = some l) :
    tokens (spelling ++ literal).toList = [.atom (spelling ++ literal).toList] :=
  tokens_of_plain (toList_spelling_ne_nil hread)
    fun c hc => (plain_of_spelling hspelling hread c hc).1

/-- Nothing is complained of in a literal behind a sign. -/
theorem isPart_spelling {spelling literal : String} {sign : Sign} {l : Literal} {c : Constraint}
    (hspelling : (spelling, sign) ∈ Sign.spellings)
    (hread : Literal.read? literal.toList = some l) (hsign : sign.constraint? l = some c) :
    IsPart (spelling ++ literal) where
  filled := not_isBlank_of_tokens (tokens_spelling hspelling hread ▸ List.cons_ne_nil _ _)
  barless := fun hbar => (plain_of_spelling hspelling hread _ hbar).2.1 rfl
  sound := (means_of_spelling hspelling hread hsign).1

/-! ## Trees -/

/-- Without labels, a part is its tokens. -/
theorem IsPart.bare_constraint {text : String} (h : IsPart text) :
    (ofText text).constraint.bare =
      Constraint.combine .all ((tokens text.toList).map fun t => t.constraint.bare) := by
  have hclause : Clause.constraint text.toList =
      Constraint.combine .all ((tokens text.toList).map Token.constraint) := by
    unfold Clause.constraint
    split
    case h_1 hnone => exact absurd hnone (isPart_iff.mp h).2.1
    case h_2 => rfl
  rw [constraint_ofText h.filled, alternatives_of_barless h.barless, Constraint.bare_relabel,
    List.map_singleton, Constraint.bare_combine_singleton, hclause, Constraint.bare_combine,
    List.map_map]
  rfl

section

variable {low high : String} {l k : Literal} (hlow : Literal.read? low.toList = some l)
  (hhigh : Literal.read? high.toList = some k)
include hlow hhigh

/-- Without labels, a range is its bounds. -/
theorem bare_range : (ofText (low ++ " - " ++ high)).constraint.bare = (l.hyphen k).bare := by
  rw [(isPart_range hlow hhigh).bare_constraint, tokens_range hlow hhigh, List.map_singleton,
    Token.bare_of_read (read_range hlow hhigh)]
  calc Constraint.combine .all [(l.hyphen k).bare]
      = (Constraint.combine .all [l.hyphen k]).bare := (Constraint.bare_combine .all [_]).symm
    _ = (l.hyphen k).bare := Constraint.bare_combine_singleton .all _

/-- Each of two comparisons is a part, and so are both with a blank between them. -/
theorem isPart_comparisons :
    IsPart (">=" ++ low) ∧ IsPart ("<=" ++ high) ∧
      IsPart (">=" ++ low ++ " " ++ ("<=" ++ high)) := by
  have hge : (">=", Sign.compare .greaterOrEqual) ∈ Sign.spellings := by decide
  have hle : ("<=", Sign.compare .lessOrEqual) ∈ Sign.spellings := by decide
  have hfirst := isPart_spelling hge hlow rfl
  have hsecond := isPart_spelling hle hhigh rfl
  exact ⟨hfirst, hsecond, hfirst.append isGap_blank hsecond⟩

/-- Without labels, so are its two comparisons. -/
theorem bare_comparisons :
    (ofText (">=" ++ low ++ " " ++ ("<=" ++ high))).constraint.bare = (l.hyphen k).bare := by
  have hge : (">=", Sign.compare .greaterOrEqual) ∈ Sign.spellings := by decide
  have hle : ("<=", Sign.compare .lessOrEqual) ∈ Sign.spellings := by decide
  obtain ⟨hfirst, hsecond, hboth⟩ := isPart_comparisons hlow hhigh
  have hreadFirst : (Token.atom (">=" ++ low).toList).read = .ok (l.compared .greaterOrEqual) :=
    readAtom_spelling hge hlow rfl
  have hreadSecond : (Token.atom ("<=" ++ high).toList).read = .ok (k.compared .lessOrEqual) :=
    readAtom_spelling hle hhigh rfl
  rw [hboth.bare_constraint, hfirst.tokens_append isGap_blank hsecond, tokens_spelling hge hlow,
    tokens_spelling hle hhigh, ← Literal.combine_compared, Constraint.bare_combine]
  simp only [List.cons_append, List.nil_append, List.map_cons, List.map_nil,
    Token.bare_of_read hreadFirst, Token.bare_of_read hreadSecond]

/-- A range asks for what lies between its ends. -/
theorem means_range : Means (low ++ " - " ++ high) fun v =>
    (l.isAny = true ∨ l.floor ≤ v) ∧ (k.isAny = true ∨ ∃ w, k.Cell w ∧ v ≤ w) := by
  refine ⟨(isPart_range hlow hhigh).sound, fun v => ?_⟩
  rw [admits, ← Constraint.admits_bare, bare_range hlow hhigh, Constraint.admits_bare]
  exact Literal.admits_hyphen (Literal.bounded_of_read? hlow) (Literal.bounded_of_read? hhigh) v

end

/-! ## Requirements -/

/-- **A hyphen sinks its clause**, unless there is an accepted literal on either side. -/
theorem sinks_of_unreadable {text : String} {clause : List Char} {before behind : List (List Char)}
    (hmem : clause ∈ alternatives text.toList) (hpieces : pieces clause = before ++ ['-'] :: behind)
    (hside : Unreadable before.getLast? ∨ Unreadable behind.head?) : Sinks text clause := by
  have htokens : tokens clause ≠ [] := by
    rw [tokens, hpieces, Ne, tokensFrom_eq_nil_iff]
    simp
  rw [sinks_iff hmem htokens, tokens, hpieces]
  intro hsound
  obtain ⟨low, high, hlow, hhigh, hreadLow, hreadHigh⟩ := exists_bounds (by simp) hsound
  rw [hlow, hhigh] at hside
  rcases hside with hside | hside
  · exact hside.not_isSome hreadLow
  · exact hside.not_isSome hreadHigh

/-- **A range is its two comparisons.**  Two accepted literals with a hyphen between them, and the
two behind `>=` and `<=`, are both read without a problem, to trees of one normal text; and the
versions that they admit are those from the floor of the left one on, unless it gives no number, and
up to one that agrees with the right one, unless that gives none.  A hyphen on one side of which
nothing stands, or something that is no accepted literal with or without its flag, is complained of,
and no version meets the clause. -/
theorem range_is_two_comparisons :
    (∀ {low high : String} {l k : Literal}, Literal.read? low.toList = some l →
      Literal.read? high.toList = some k →
      (ofText (low ++ " - " ++ high)).problems = [] ∧
      (ofText (">=" ++ low ++ " " ++ ("<=" ++ high))).problems = [] ∧
      (ofText (low ++ " - " ++ high)).text =
        (ofText (">=" ++ low ++ " " ++ ("<=" ++ high))).text ∧
      ∀ v, (ofText (low ++ " - " ++ high)).admits v = true ↔
        (l.isAny = true ∨ l.floor ≤ v) ∧ (k.isAny = true ∨ ∃ w, k.Cell w ∧ v ≤ w)) ∧
    ∀ {text : String} {clause : List Char} {before behind : List (List Char)},
      clause ∈ alternatives text.toList → pieces clause = before ++ ['-'] :: behind →
      Unreadable before.getLast? ∨ Unreadable behind.head? → Sinks text clause := by
  refine ⟨fun {low high l k} hlow hhigh => ?_, sinks_of_unreadable⟩
  obtain ⟨hproblems, hadmits⟩ := means_range hlow hhigh
  refine ⟨hproblems, (isPart_comparisons hlow hhigh).2.2.sound, ?_, hadmits⟩
  -- labels aside the two trees are one, and the normal text leaves labels out
  have hbare := (bare_range hlow hhigh).trans (bare_comparisons hlow hhigh).symm
  rw [Requirement.text, Requirement.text, ← Constraint.text_bare, hbare, Constraint.text_bare]

/-- From a minor to a major with parts that count for nothing; and a range whose end is none. -/
theorem range_is_two_comparisons_marked :
    Literal.read? "v8.1.x-RC1".toList = some (.minor 8 1) ∧
    Literal.read? "8.X+b.4".toList = some (.major 8) ∧
    (ofText ("v8.1.x-RC1" ++ " - " ++ "8.X+b.4")).text =
      (ofText (">=" ++ "v8.1.x-RC1" ++ " " ++ ("<=" ++ "8.X+b.4"))).text ∧
    Sinks "7.4||8@dev - foo" "8@dev - foo".toList := by
  have hlow : Literal.read? "v8.1.x-RC1".toList = some (.minor 8 1) := by decide +kernel
  have hhigh : Literal.read? "8.X+b.4".toList = some (.major 8) := by decide +kernel
  have hmem : "8@dev - foo".toList ∈ alternatives "7.4||8@dev - foo".toList := by decide
  have hpieces : pieces "8@dev - foo".toList = ["8@dev".toList] ++ ['-'] :: ["foo".toList] := by
    decide
  have hside : Unreadable ["foo".toList].head? := by
    intro cs hcs
    rw [← Option.some.inj hcs]
    decide
  exact ⟨hlow, hhigh, (range_is_two_comparisons.1 hlow hhigh).2.2.1,
    range_is_two_comparisons.2 hmem hpieces (.inr hside)⟩

end Requirement
end ReleaseMatrix
