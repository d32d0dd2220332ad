/-
  Normal comparisons read back — a comparison that is written in normal form is read as itself.

      compare ≥ 8.1.0      is written      >= 8.1.0      and is read as      compare ≥ 8.1.0

  The operator stands alone there, so it waits for the version, and the two are read as the atom
  `>=8.1.0`.  Written in full, a version is a literal and a name at once:

      8.1.0      a literal of three components, each of them a number
                 a name that holds the version 8.1.0

  Both ways of reading stop at the same length of a number.  With 16 digits it comes back; one digit
  more makes the run overlong, which no literal may hold and which the search for a version passes
  by.  So the bound is exact (`extract?_text_iff`, `problems_ofText_comparison`).

  1. **Versions** — the characters of a written version; `extract?_text_iff`.
  2. **Literals** — `read?_text_eq_none`, beyond the bound.
  3. **Comparisons** — one atom (`tokens_comparison`), and the main result `comparison_reads_back`.
-/
import ReleaseMatrix.Proofs.Requirement.OwnName
import ReleaseMatrix.Proofs.Requirement.Range

namespace ReleaseMatrix

/-! ## Versions -/

namespace Version

/-- Each number of the version has at most 16 digits. -/
def Fits (v : Version) : Prop := ∀ n ∈ v.numbers, n.toNat < 10 ^ maxDigits

/-- A written version consists of digits and dots. -/
theorem digit_or_dot_of_mem_text {v : Version} {c : Char} (hc : c ∈ v.text.toList) :
    c.isDigit = true ∨ c = '.' := by
  rw [toList_text] at hc
  simp only [List.mem_append, List.mem_cons] at hc
  rcases hc with hmajor | rfl | hminor | rfl | hpatch
  · exact .inl (Text.isDigit_of_mem_toDigits hmajor)
  · exact .inr rfl
  · exact .inl (Text.isDigit_of_mem_toDigits hminor)
  · exact .inr rfl
  · exact .inl (Text.isDigit_of_mem_toDigits hpatch)

/-- A version is written in characters of literals. -/
theorem isWritten_of_mem_text {v : Version} {c : Char} (hc : c ∈ v.text.toList) :
    Literal.isWritten c = true := by
  rcases digit_or_dot_of_mem_text hc with hdigit | rfl
  · exact Literal.isWritten_of_isDigit (Text.isDigit_of_ascii hdigit)
  · decide

/-- All of them are in ASCII. -/
theorem ascii_of_mem_text {v : Version} {c : Char} (hc : c ∈ v.text.toList) : c.toNat < 128 := by
  rcases digit_or_dot_of_mem_text hc with hdigit | rfl
  · have := Text.toNat_of_isDigit hdigit
    omega
  · decide

/-- A number begins with a digit. -/
theorem exists_toDigits (n : Nat) :
    ∃ c cs, Nat.toDigits 10 n = c :: cs ∧ Text.isDigit c = true := by
  have hne : Nat.toDigits 10 n ≠ [] := Nat.toDigits_ne_nil
  obtain ⟨c, cs, hcons⟩ := List.exists_cons_of_ne_nil hne
  have hmem : c ∈ Nat.toDigits 10 n := by
    rw [hcons]
    exact List.mem_cons_self
  exact ⟨c, cs, hcons, Text.isDigit_of_ascii (Text.isDigit_of_mem_toDigits hmem)⟩

/-- **A written version is a name that holds it iff its numbers have at most 16 digits.** -/
theorem extract?_text_iff (v : Version) : extract? v.text = some v ↔ v.Fits := by
  constructor
  · exact fun h => bounded_of_extract? h
  · exact fun h => extract?_of_read? (Literal.read?_text h) rfl fun _ => ascii_of_mem_text

end Version

/-! ## Literals -/

namespace Literal

open Text Version

/-- A run of more than 16 digits is no component. -/
theorem readComponents?_overlong {n : Nat} (hn : ¬ n < 10 ^ maxDigits) {rest : List Char}
    (hrest : NoDigit rest) (more : Nat) :
    readComponents? more (Nat.toDigits 10 n ++ rest) = none := by
  have hdigits : ∀ c ∈ Nat.toDigits 10 n, isDigit c = true := fun _ hc =>
    isDigit_of_ascii (isDigit_of_mem_toDigits hc)
  have hcomponent : Component.read? (Nat.toDigits 10 n ++ rest) = none := by
    have hrun := splitRun_append_of_digits hdigits hrest
    have hlong : ¬ isShort (Nat.toDigits 10 n) = true := fun h => hn (isShort_toDigits_iff.mp h)
    obtain ⟨c, cs, hcons, hdigit⟩ := exists_toDigits n
    rw [hcons] at hrun hlong ⊢
    rw [List.cons_append] at hrun ⊢
    rw [Component.read?, isWildcard_eq_false_of_isDigit hdigit, if_neg Bool.false_ne_true]
    simp only [hrun, if_neg hlong]
  cases more <;> simp [readComponents?, hcomponent]

/-- Behind a number and a dot, everything depends on what follows. -/
theorem readComponents?_number {n : UInt64} (hn : n.toNat < 10 ^ maxDigits) (more : Nat)
    {behind : List Char} (hbehind : readComponents? more behind = none) :
    readComponents? (more + 1) (Nat.toDigits 10 n.toNat ++ '.' :: behind) = none := by
  have hdot : ∀ c ∈ ('.' :: behind).head?, isDigit c = false := noDigit_cons (by decide) behind
  rw [readComponents?, Component.read?_append (isComponent_toDigits hn) hdot]
  simp only [Option.bind_eq_bind, Option.bind_some, hbehind]
  rfl

/-- **A written version with a number of more digits is no literal.** -/
theorem read?_text_eq_none {v : Version} (h : ¬ v.Fits) : read? v.text.toList = none := by
  have hdot (cs : List Char) : NoDigit ('.' :: cs) := noDigit_cons (by decide) cs
  have hcomponents : readComponents? 2 v.text.toList = none := by
    rw [toList_text]
    -- the first number that does not fit stops the reading, and what stands before it is read
    by_cases hmajor : v.major.toNat < 10 ^ maxDigits
    · refine readComponents?_number hmajor 1 ?_
      by_cases hminor : v.minor.toNat < 10 ^ maxDigits
      · refine readComponents?_number hminor 0 ?_
        have hpatch : ¬ v.patch.toNat < 10 ^ maxDigits := by
          intro hpatch
          refine h fun n hn => ?_
          simp only [Version.numbers, List.mem_cons, List.not_mem_nil, or_false] at hn
          rcases hn with rfl | rfl | rfl <;> assumption
        have hlast := readComponents?_overlong hpatch noDigit_nil 0
        rwa [List.append_nil] at hlast
      · exact readComponents?_overlong hminor (hdot _) 1
    · exact readComponents?_overlong hmajor (hdot _) 2
  -- the text begins with a digit, so no marker is dropped
  have hmarker : dropMarker v.text.toList = v.text.toList := by
    obtain ⟨c, cs, hcons, hdigit⟩ := exists_toDigits v.major.toNat
    have hv : (c == 'v' || c == 'V') = false := by
      rw [Bool.or_eq_false_iff]
      exact ⟨beq_false_of_ne (ne_of_isDigit hdigit (by decide)),
        beq_false_of_ne (ne_of_isDigit hdigit (by decide))⟩
    rw [toList_text, hcons, List.cons_append, dropMarker, hv, if_neg Bool.false_ne_true]
  rw [read?, hmarker, hcomponents]

end Literal

/-! ## Comparisons -/

namespace Requirement

open Clause

section

variable (op : Operator) (v : Version)

theorem mem_spellings_text : (op.text, Sign.compare op) ∈ Sign.spellings := by
  cases op <;> decide

theorem toList_text_comparison :
    (Constraint.bound op v).text.toList = op.text.toList ++ ' ' :: v.text.toList := by
  simp [Constraint.bound, Constraint.text]

/-- Neither of the two has a bar, a separator or a flag in it. -/
theorem plain_of_mem_comparison {c : Char} (hc : c ∈ op.text.toList ∨ c ∈ v.text.toList) :
    isSeparator c = false ∧ c ≠ '|' ∧ c ≠ '@' := by
  rcases hc with hop | hv
  · exact Sign.plain_of_mem_spellings _ (mem_spellings_text op) c hop
  · have hwritten := Version.isWritten_of_mem_text hv
    have hother := Literal.not_mem_of_isWritten hwritten
    refine ⟨Literal.isSeparator_eq_false_of_isWritten hwritten, ?_, ?_⟩ <;>
      · rintro rfl
        exact hother (by decide)

theorem bar_notMem_comparison : '|' ∉ (Constraint.bound op v).text.toList := by
  rw [toList_text_comparison, List.mem_append, List.mem_cons]
  rintro (hop | hblank | hv)
  · exact (plain_of_mem_comparison op v (.inl hop)).2.1 rfl
  · exact absurd hblank (by decide)
  · exact (plain_of_mem_comparison op v (.inr hv)).2.1 rfl

/-- With nothing between them, the operator is the sign and the version is what follows it. -/
theorem split_comparison (spelling : String) (sign : Sign) (h : (spelling, sign) ∈ Sign.spellings) :
    Sign.split (spelling.toList ++ v.text.toList) = (sign, v.text.toList) := by
  obtain ⟨c, cs, hcons, hdigit⟩ := Version.exists_toDigits v.major.toNat
  have hfirst : v.text.toList = c :: (cs ++
      '.' :: (Nat.toDigits 10 v.minor.toNat ++ '.' :: Nat.toDigits 10 v.patch.toNat)) := by
    rw [Version.toList_text, hcons, List.cons_append]
  have hc := Literal.not_mem_of_isWritten (Literal.isWritten_of_isDigit hdigit)
  rw [hfirst]
  exact Sign.split_append hc _ _ h

/-- **A comparison is one atom**: the operator stands alone and is glued to the version. -/
theorem tokens_comparison :
    tokens (Constraint.bound op v).text.toList = [.atom (op.text.toList ++ v.text.toList)] := by
  have hop : Sign.standsAlone op.text.toList = true := by cases op <;> decide
  have hne : v.text.toList ≠ [] := by simp [Version.toList_text]
  -- a version is no sign, so the sign that waits is glued to it
  have hv : ¬ Sign.standsAlone v.text.toList = true := by
    have hsplit := split_comparison v "" (.compare .equal) (by decide)
    rw [String.toList_empty, List.nil_append] at hsplit
    rw [Sign.standsAlone, hsplit]
    simp
  have hpieces : pieces (Constraint.bound op v).text.toList = [op.text.toList, v.text.toList] := by
    rw [toList_text_comparison, pieces_append_cons _ _ (by decide),
      pieces_of_plain (Sign.ne_nil_of_standsAlone hop) fun c hc =>
        (plain_of_mem_comparison op v (.inl hc)).1,
      pieces_of_plain hne fun c hc => (plain_of_mem_comparison op v (.inr hc)).1]
    rfl
  rw [tokens, hpieces, tokensFrom_sign hop, tokensFrom_glue hv]
  rfl

theorem not_isBlank_comparison : ¬ IsBlank (Constraint.bound op v).text :=
  not_isBlank_of_tokens (by simp [tokens_comparison])

/-- What is read of the atom depends on the version only. -/
theorem problem?_comparison :
    (Token.atom (op.text.toList ++ v.text.toList)).problem? = none ↔
      (Literal.read? v.text.toList).isSome = true := by
  have hflag : '@' ∉ op.text.toList ++ v.text.toList := fun hmem =>
    (plain_of_mem_comparison op v (List.mem_append.mp hmem)).2.2 rfl
  have hne : op.text.toList ++ v.text.toList ≠ [] := by simp [Version.toList_text]
  have hbody : Token.body (op.text.toList ++ v.text.toList) = op.text.toList ++ v.text.toList := by
    rw [Token.body_of_ne_nil (by rwa [Stability.drop_eq_self hflag]), Stability.drop_eq_self hflag]
  rw [Token.problem?_atom_iff, hbody, split_comparison v op.text _ (mem_spellings_text op)]
  simp

/-- **A written comparison is complained of iff a number is too long.** -/
theorem problems_ofText_comparison :
    (ofText (Constraint.bound op v).text).problems = [] ↔ v.Fits := by
  have hread : (Literal.read? v.text.toList).isSome = true ↔ v.Fits := by
    constructor
    · intro hsome
      by_contra hfits
      rw [Literal.read?_text_eq_none hfits] at hsome
      cases hsome
    · intro hfits
      rw [Literal.read?_text hfits]
      rfl
  rw [problems_ofText_barless (not_isBlank_comparison op v) (bar_notMem_comparison op v),
    problems_eq_nil_iff, tokens_comparison, ← hread, ← problem?_comparison op v]
  simp [Sound]

/-- The tree of a written comparison is the comparison, if its numbers are not too long. -/
theorem constraint_ofText_comparison {v : Version} (h : v.Fits) :
    (ofText (Constraint.bound op v).text).constraint =
      .compare op v (some (Constraint.bound op v).text) := by
  have hread : (Token.atom (op.text.toList ++ v.text.toList)).read =
      .ok (Constraint.bound op v) := by
    rw [← String.toList_append]
    exact readAtom_spelling (mem_spellings_text op) (Literal.read?_text h) rfl
  have hclause : Clause.constraint (Constraint.bound op v).text.toList =
      .compare op v (some (String.ofList (op.text.toList ++ v.text.toList))) := by
    simp only [Clause.constraint, tokens_comparison, List.map_cons, List.map_nil, Token.constraint,
      hread]
    rfl
  rw [constraint_ofText (not_isBlank_comparison op v),
    alternatives_of_barless (bar_notMem_comparison op v), List.map_singleton, hclause]
  rfl

end

/-- **A normal comparison is read as itself.**  If each number of a version has at most 16 digits,
its text is a name that holds it, and behind any operator it is read without a problem, as this
operator and this version; with a longer number it is neither.  Any version that a name holds is of
the first kind: written, it is read as itself again. -/
theorem comparison_reads_back (op : Operator) (v : Version) :
    (v.Fits → Version.extract? v.text = some v ∧
      ofText (op.text ++ " " ++ v.text) = ⟨.compare op v (some (op.text ++ " " ++ v.text)), []⟩) ∧
    (¬ v.Fits → Version.extract? v.text ≠ some v ∧
      (ofText (op.text ++ " " ++ v.text)).problems ≠ []) ∧
    ∀ name w, Version.extract? name = some w → Version.extract? w.text = some w := by
  have htext : (Constraint.bound op v).text = op.text ++ " " ++ v.text := by
    rw [Constraint.bound, Constraint.text]
  rw [← htext]
  refine ⟨fun h => ⟨(Version.extract?_text_iff v).mpr h, ?_⟩, fun h => ⟨?_, ?_⟩, ?_⟩
  · rw [← constraint_ofText_comparison op h, ← (problems_ofText_comparison op v).mpr h]
  · exact fun hextract => h ((Version.extract?_text_iff v).mp hextract)
  · exact fun hproblems => h ((problems_ofText_comparison op v).mp hproblems)
  · intro name w hname
    exact (Version.extract?_text_iff w).mpr (Version.bounded_of_extract? hname)

/-- The widest version behind an operator, and the version of a name with much else in it. -/
theorem comparison_reads_back_widest :
    let v : Version := ⟨9999999999999999, 0, 9999999999999999⟩
    v.Fits ∧
    ofText ("!=" ++ " " ++ v.text) = ⟨.compare .notEqual v (some ("!=" ++ " " ++ v.text)), []⟩ ∧
    Version.extract? "php-08.2.1RC1" = some ⟨8, 2, 1⟩ ∧
    Version.extract? (Version.text ⟨8, 2, 1⟩) = some ⟨8, 2, 1⟩ := by
  intro v
  have hfits : v.Fits := by
    simp [Version.Fits, Version.numbers, Version.maxDigits, v]
  have hname : Version.extract? "php-08.2.1RC1" = some ⟨8, 2, 1⟩ := by decide +kernel
  obtain ⟨hreads, -, hagain⟩ := comparison_reads_back .notEqual v
  exact ⟨hfits, (hreads hfits).2, hname, hagain _ _ hname⟩

end Requirement
end ReleaseMatrix
