/-
  Literals without a number — which texts are accepted although no ASCII digit is in them.

  Those that are meant to be are the wild ones: one to three wildcards, such as `*` or `vx.x`.  But
  a wildcard can be all that is read of a longer text, since what stands behind the components counts
  for nothing and digits of other scripts have no value:

      x.*         wildcard, wildcard
      xdebug      wildcard, qualifier `debug`
      *+b         wildcard, build mark
      ٨           digits of another script

  Whichever way a text without a number is accepted, it is read as any version.  So it does not
  matter to the requirement how it is written, and a misspelled word that begins with `x` asks for
  nothing.

  1. **Literals** — `IsWild`, `IsDisguised`, and `Literal.read?_numberless_iff`.
  2. **Atoms** — `Requirement.reads_numberless`.
-/
import ReleaseMatrix.Proofs.Requirement.Atom

namespace ReleaseMatrix

namespace Literal

open Text

/-! ## Literals -/

/-- A marker or none, and one to three wildcards with dots between them. -/
def IsWild (cs : List Char) : Prop :=
  ∃ marker parts, cs = marker ++ ['.'].intercalate parts ∧
    (marker = [] ∨ marker = ['v'] ∨ marker = ['V']) ∧ parts ≠ [] ∧ parts.length ≤ 3 ∧
    ∀ part ∈ parts, ∃ c, isWildcard c = true ∧ part = [c]

/-- A literal with something in it that is neither a wildcard nor counts: a component of digits
without a value, a fourth number, a qualifier or a build mark. -/
def IsDisguised (cs : List Char) : Prop :=
  ∃ p : Parts, p.Proper ∧ p.text = cs ∧
    ((∃ part ∈ p.components, part ≠ [] ∧ ∀ c ∈ part, isDigit c = true ∧ c.isDigit = false) ∨
      p.fourth ++ (p.qualifier ++ p.build) ≠ [])

/-- The parts of a wild text. -/
theorem IsWild.exists_parts {cs : List Char} (h : IsWild cs) : ∃ p : Parts, p.Proper ∧ p.text = cs ∧
    (∀ part ∈ p.components, ∃ c, isWildcard c = true ∧ part = [c]) ∧
    p.fourth ++ (p.qualifier ++ p.build) = [] := by
  obtain ⟨marker, parts, rfl, hmarker, hfilled, hlength, hwild⟩ := h
  refine ⟨⟨marker, parts, [], [], []⟩, ?_, by simp [Parts.text], hwild, rfl⟩
  exact
    { marker := hmarker
      filled := hfilled
      atMostThree := hlength
      components := fun part hpart => .inl (hwild part hpart)
      fourth := .inl rfl
      fourthBehindThree := fun hne => absurd rfl hne
      qualifier := .inl rfl
      build := rfl }

section

variable {p : Parts} (h : p.Proper) (hdigits : ∀ c ∈ p.text, c.isDigit = false)
include h hdigits

/-- Without an ASCII digit, a component is a wildcard or digits without a value. -/
theorem Parts.Proper.component_numberless {part : List Char} (hpart : part ∈ p.components) :
    (∃ c, isWildcard c = true ∧ part = [c]) ∨
    part ≠ [] ∧ ∀ c ∈ part, isDigit c = true ∧ c.isDigit = false := by
  rcases h.components part hpart with hwild | ⟨hshort, hrun⟩
  · exact .inl hwild
  · refine .inr ⟨List.length_pos_iff.mp (Version.isShort_iff.mp hshort).1, fun c hc => ?_⟩
    exact ⟨hrun c hc, hdigits c (Parts.mem_text hpart hc)⟩

/-- Either way it is read as a wildcard. -/
theorem Parts.Proper.ofText_numberless {part : List Char} (hpart : part ∈ p.components) :
    Component.ofText part = .wildcard := by
  rcases h.component_numberless hdigits hpart with ⟨c, hwild, rfl⟩ | ⟨hne, hrun⟩
  · exact Component.ofText_wildcard hwild
  · obtain ⟨c, cs, rfl⟩ := List.exists_cons_of_ne_nil hne
    have hvalue : value? (c :: cs) = none := by
      rw [value?, List.all_cons, (hrun c List.mem_cons_self).2, Bool.false_and,
        if_neg Bool.false_ne_true]
    rw [Component.ofText, Version.component?, hvalue]
    rfl

/-- So it begins with a wildcard, which says nothing of any version. -/
theorem Parts.Proper.ofComponents_numberless : ofComponents (p.components.map .ofText) = any := by
  obtain ⟨first, others, hcons⟩ := List.exists_cons_of_ne_nil h.filled
  have hmem : first ∈ p.components := by
    rw [hcons]
    exact List.mem_cons_self
  have hfirst := h.ofText_numberless hdigits hmem
  rw [hcons, List.map_cons, hfirst]
  rfl

/-- Parts without a number are wild or disguised. -/
theorem Parts.Proper.isWild_or_isDisguised : IsWild p.text ∨ IsDisguised p.text := by
  by_cases htail : p.fourth ++ (p.qualifier ++ p.build) = []
  · by_cases hforeign : ∃ part ∈ p.components, part ≠ [] ∧
        ∀ c ∈ part, isDigit c = true ∧ c.isDigit = false
    · exact .inr ⟨p, h, rfl, .inl hforeign⟩
    · have hwild : ∀ part ∈ p.components, ∃ c, isWildcard c = true ∧ part = [c] := by
        intro part hpart
        refine (h.component_numberless hdigits hpart).resolve_right ?_
        intro hrun
        exact hforeign ⟨part, hpart, hrun⟩
      refine .inl ⟨p.marker, p.components, ?_, h.marker, h.filled, h.atMostThree, hwild⟩
      rw [Parts.text, htail, List.append_nil]
  · exact .inr ⟨p, h, rfl, .inr htail⟩

end

/-- **A text without an ASCII digit is accepted iff it is wild or disguised**, and is read as any
version in both cases. -/
theorem read?_numberless_iff {cs : List Char} (hdigits : ∀ c ∈ cs, c.isDigit = false)
    {l : Literal} : read? cs = some l ↔ (IsWild cs ∨ IsDisguised cs) ∧ l = any := by
  have hproper {p : Parts} (h : p.Proper) (htext : p.text = cs) : read? cs = some any := by
    subst htext
    rw [h.read?_text, h.ofComponents_numberless hdigits]
  constructor
  · intro hread
    obtain ⟨p, h, rfl, rfl⟩ := read?_eq_some_iff.mp hread
    exact ⟨h.isWild_or_isDisguised hdigits, h.ofComponents_numberless hdigits⟩
  · rintro ⟨hwild | ⟨p, h, htext, -⟩, rfl⟩
    · obtain ⟨p, h, htext, -⟩ := hwild.exists_parts
      exact hproper h htext
    · exact hproper h htext

/-- A wild literal holds no digit. -/
theorem IsWild.isDigit_eq_false {cs : List Char} (h : IsWild cs) :
    ∀ c ∈ cs, isDigit c = false := by
  obtain ⟨marker, parts, rfl, hmarker, -, -, hwild⟩ := h
  rw [List.forall_mem_append]
  constructor
  · rcases hmarker with rfl | rfl | rfl
    · exact fun c hc => absurd hc List.not_mem_nil
    · exact List.forall_mem_singleton.mpr (by decide)
    · exact List.forall_mem_singleton.mpr (by decide)
  · refine forall_mem_intercalate (by decide) fun part hpart => ?_
    obtain ⟨c, hc, rfl⟩ := hwild part hpart
    exact List.forall_mem_singleton.mpr (isDigit_eq_false_of_isWildcard hc)

/-- **No text is both**: the components end in only one place, and no wildcard is a digit. -/
theorem IsDisguised.not_isWild {cs : List Char} (h : IsDisguised cs) : ¬ IsWild cs := by
  intro hwild
  obtain ⟨p, hp, rfl, ⟨part, hpart, hne, hrun⟩ | hne⟩ := h
  · obtain ⟨c, hc⟩ := List.exists_mem_of_ne_nil part hne
    have hdigit := (hrun c hc).1
    rw [hwild.isDigit_eq_false c (Parts.mem_text hpart hc)] at hdigit
    cases hdigit
  · obtain ⟨w, hw, htext, -, htail⟩ := hwild.exists_parts
    have hsame := hw.readComponents?_text
    rw [htext, hp.readComponents?_text, htail, Option.some.injEq, Prod.mk.injEq] at hsame
    exact hne hsame.2

end Literal

/-! ## Atoms -/

namespace Requirement

open Clause

/-- What a sign asks of a literal that stands for all versions does not depend on the version. -/
theorem admits_constraint?_any {sign : Sign} {c : Constraint} (h : sign.constraint? .any = some c)
    (v : Version) :
    c.admits v = true ↔ ∀ op, sign = .compare op → op ∈ Operator.reflexive := by
  cases sign with
  | compare op =>
    obtain rfl := Option.some.inj h
    rw [Literal.admits_compared (by simp [Literal.Bounded, Literal.numbers]),
      Literal.relatesTo_any_iff]
    simp
  | tilde | caret =>
    obtain rfl := Option.some.inj h
    simp [Literal.tilde, Literal.caret]
  | tildeArrow => cases h

/-- **Atoms without a number.**  If no ASCII digit is in the literal of an atom, the atom is
understood iff its sign is not the refused one and the literal is wild, or else disguised as if it
were.  Then it asks for any version or for none, whatever the literal is: which of the two, only the
sign decides.  Any other such atom is complained of and sinks each clause that it stands in. -/
theorem reads_numberless {atom literal : List Char} {sign : Sign}
    (hsplit : Sign.split (Token.body atom) = (sign, literal))
    (hdigits : ∀ c ∈ literal, c.isDigit = false) :
    ((Token.atom atom).problem? = none ↔
      sign ≠ .tildeArrow ∧ (Literal.IsWild literal ∨ Literal.IsDisguised literal)) ∧
    ¬ (Literal.IsWild literal ∧ Literal.IsDisguised literal) ∧
    ((Token.atom atom).problem? = none → ∀ v, (Token.atom atom).constraint.admits v = true ↔
      ∀ op, sign = .compare op → op ∈ Operator.reflexive) ∧
    ((Token.atom atom).problem? ≠ none → ∀ text, ∀ clause ∈ alternatives text.toList,
      Token.atom atom ∈ tokens clause → Sinks text clause) := by
  refine ⟨?_, fun hboth => hboth.2.not_isWild hboth.1, ?_, ?_⟩
  · rw [Token.problem?_atom_iff, hsplit, Option.isSome_iff_exists]
    simp only [Literal.read?_numberless_iff hdigits, exists_eq_right]
  · intro hproblem v
    obtain ⟨c, hread⟩ := Token.problem?_eq_none_iff.mp hproblem
    obtain ⟨l, hl, hc⟩ := Token.readAtom_eq_ok_iff.mp hread
    rw [hsplit] at hl hc
    rw [((Literal.read?_numberless_iff hdigits).mp hl).2] at hc
    rw [Token.admits_of_read hread, admits_constraint?_any hc]
  · intro hproblem text clause hmem htoken
    rw [sinks_iff hmem (List.ne_nil_of_mem htoken)]
    intro hsound
    exact hproblem (hsound _ htoken)

/-- A word behind a sign, without the flag at its end, sinks its clause. -/
theorem reads_numberless_word :
    Sign.split (Token.body ">=debug@dev".toList) = (.compare .greaterOrEqual, "debug".toList) ∧
    (∀ c ∈ "debug".toList, c.isDigit = false) ∧
    Sinks "7.4 || >=debug@dev" " >=debug@dev".toList := by
  have hsplit : Sign.split (Token.body ">=debug@dev".toList) =
      (.compare .greaterOrEqual, "debug".toList) := by decide +kernel
  have hdigits : ∀ c ∈ "debug".toList, c.isDigit = false := by simp
  refine ⟨hsplit, hdigits, ?_⟩
  exact (reads_numberless hsplit hdigits).2.2.2 (by decide +kernel) _ _ (by decide +kernel)
    (by decide +kernel)

/-- A word that begins with a wildcard, and a digit of another script, ask for any version. -/
theorem numberless_disguised :
    (¬ Literal.IsWild "xdebug".toList ∧ (ofText "xdebug").problems = [] ∧
      ∀ v, (ofText "xdebug").admits v = true) ∧
    (¬ Literal.IsWild "٨".toList ∧ (ofText "٨").problems = [] ∧
      ∀ v, (ofText "٨").admits v = true) := by
  have hword : Literal.IsDisguised "xdebug".toList := by
    refine ⟨⟨[], ["x".toList], [], "debug".toList, []⟩, ?_, by decide, .inr (by decide)⟩
    exact
      { marker := .inl rfl
        filled := by decide
        atMostThree := by decide
        components := fun part hpart => .inl ⟨'x', by decide, List.mem_singleton.mp hpart⟩
        fourth := .inl rfl
        fourthBehindThree := fun hne => absurd rfl hne
        qualifier := .inr ⟨'d', "ebug".toList, rfl, by simp [Literal.isMark], .inr (by decide)⟩
        build := rfl }
  -- a digit of another script is a digit, but no number
  have hdigit : ¬ Literal.IsWild "٨".toList := by
    intro hwild
    have hnone := hwild.isDigit_eq_false '٨' (by decide)
    exact absurd hnone (by decide +kernel)
  have hany {text : String} (h : (ofText text).constraint = .all (some text)) (v : Version) :
      (ofText text).admits v = true := by
    rw [admits, h]
    rfl
  exact ⟨⟨hword.not_isWild, by decide +kernel, hany rfl⟩,
    ⟨hdigit, by decide +kernel, hany rfl⟩⟩

end Requirement

end ReleaseMatrix
