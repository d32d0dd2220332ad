/-
  Writings — the ways in which a text can be written as a literal, and the one that is read.

  A text may be divided into the parts of a literal in more than one way, for a fourth number may
  follow fewer than three components:

      8.1.2        8 | 1 | 2              8 | 1  and fourth  .2

  The way with the longest chain of components is the one that is read.  All others break off
  earlier: their chains are beginnings of the longest one.  Its numbers are those that ASCII digits
  spell, up to the first component that is a wildcard or has a digit of another script; the other
  parts of the literal do not matter for them.

  1. **Writings** — `IsWriting`, `IsLongest`.
  2. **The longest** — `IsWriting.exists_proper`: a fourth number behind fewer than three components
     is one more component.  So the longest writings are the proper ones (`isLongest_iff`).
  3. **Numbers** — `numbers_ofComponents`.
  4. **Literals** — `reads_longest_chain`.
-/
import ReleaseMatrix.Proofs.Literal.Matching
import ReleaseMatrix.Proofs.Version.Extraction

namespace ReleaseMatrix.Literal

open Text

/-! ## Writings -/

/-- The text can be written in these parts: each is what may stand in its place. -/
structure IsWriting (cs : List Char) (p : Parts) : Prop where
  text : p.text = cs
  marker : p.marker = [] ∨ p.marker = ['v'] ∨ p.marker = ['V']
  filled : p.components ≠ []
  atMostThree : p.components.length ≤ 3
  components : ∀ part ∈ p.components, IsComponent part
  fourth : IsFourth p.fourth
  qualifier : IsQualifier p.qualifier
  build : isBuild p.build = true

/-- A writing with as many components as any. -/
structure IsLongest (cs : List Char) (p : Parts) : Prop where
  writing : IsWriting cs p
  longest : ∀ q, IsWriting cs q → q.components.length ≤ p.components.length

theorem Parts.Proper.isWriting {p : Parts} (h : p.Proper) : IsWriting p.text p :=
  ⟨rfl, h.marker, h.filled, h.atMostThree, h.components, h.fourth, h.qualifier, h.build⟩

/-! ## The longest -/

/-- One part more stands behind a dot of its own. -/
theorem intercalate_concat {parts : List (List Char)} (hne : parts ≠ []) (run : List Char) :
    ['.'].intercalate (parts ++ [run]) = ['.'].intercalate parts ++ '.' :: run := by
  obtain ⟨part, others, rfl⟩ := List.exists_cons_of_ne_nil hne
  rw [List.cons_append, intercalate_cons_eq, intercalate_cons_eq, List.flatMap_append]
  simp

/-- **A fourth number behind fewer than three components is one more component.** -/
theorem IsWriting.exists_proper {cs : List Char} {p : Parts} (h : IsWriting cs p) :
    ∃ q : Parts, q.Proper ∧ q.text = cs ∧ p.components <+: q.components ∧
      (¬ p.Proper → p.components.length < q.components.length) := by
  by_cases hproper : p.Proper
  · exact ⟨p, hproper, h.text, List.prefix_rfl, fun hnot => absurd hproper hnot⟩
  · -- the parts can only be improper by a fourth component behind fewer than three
    have hfourth : p.fourth ≠ [] ∧ p.components.length ≠ 3 := by
      by_contra hnot
      refine hproper ⟨h.marker, h.filled, h.atMostThree, h.components, h.fourth, fun hne => ?_,
        h.qualifier, h.build⟩
      by_contra hlength
      exact hnot ⟨hne, hlength⟩
    -- its digits are one component more, and the same text is proper so
    obtain ⟨run, hrun, hshort, hdigits⟩ := h.fourth.resolve_left hfourth.1
    have hlength := h.atMostThree
    refine ⟨{ p with components := p.components ++ [run], fourth := [] }, ?_, ?_, ?_, ?_⟩
    · refine ⟨h.marker, by simp, ?_, ?_, .inl rfl, fun hne => absurd rfl hne, h.qualifier, h.build⟩
      · rw [List.length_append, List.length_singleton]
        omega
      · rw [List.forall_mem_append]
        exact ⟨h.components, List.forall_mem_singleton.mpr (.inr ⟨hshort, hdigits⟩)⟩
    · rw [← h.text, Parts.text, Parts.text, hrun, intercalate_concat h.filled]
      simp
    · exact List.prefix_append _ _
    · simp

/-- No component holds a dot. -/
theorem IsComponent.dot_notMem {part : List Char} (h : IsComponent part) : '.' ∉ part := by
  intro hmem
  rcases h with ⟨c, hwild, rfl⟩ | ⟨-, hdigits⟩
  · rw [← List.mem_singleton.mp hmem] at hwild
    exact absurd hwild (by decide)
  · exact absurd (hdigits '.' hmem) (by decide)

/-- A text determines the components of its proper parts. -/
theorem Parts.Proper.components_eq {p q : Parts} (hp : p.Proper) (hq : q.Proper)
    (htext : p.text = q.text) : p.components = q.components := by
  have hread := hp.readComponents?_text
  rw [htext, hq.readComponents?_text] at hread
  have htail := (Prod.mk.inj (Option.some.inj hread)).2
  have hdrop := hp.dropMarker_text
  rw [htext, hq.dropMarker_text, htail, List.append_cancel_right_eq] at hdrop
  -- no component holds a dot, so the dots between them are where the text is cut
  calc p.components
      = (['.'].intercalate p.components).splitOn '.' := by
        rw [List.splitOn_intercalate '.' (fun part h => (hp.components part h).dot_notMem) hp.filled]
    _ = (['.'].intercalate q.components).splitOn '.' := by rw [hdrop]
    _ = q.components := by
        rw [List.splitOn_intercalate '.' (fun part h => (hq.components part h).dot_notMem) hq.filled]

/-- Every chain of components is the beginning of that of the proper parts. -/
theorem Parts.Proper.prefix_of_isWriting {p q : Parts} (hp : p.Proper)
    (hq : IsWriting p.text q) : q.components <+: p.components := by
  obtain ⟨r, hr, htext, hprefix, -⟩ := hq.exists_proper
  rwa [hr.components_eq hp htext] at hprefix

/-- **The longest writings are the proper ones.** -/
theorem isLongest_iff {cs : List Char} {p : Parts} :
    IsLongest cs p ↔ p.Proper ∧ p.text = cs := by
  constructor
  · rintro ⟨hwriting, hlongest⟩
    obtain ⟨q, hq, htext, -, hlonger⟩ := hwriting.exists_proper
    refine ⟨?_, hwriting.text⟩
    by_contra hnot
    have hle := hlongest q (htext ▸ hq.isWriting)
    have hlt := hlonger hnot
    omega
  · rintro ⟨hproper, rfl⟩
    exact ⟨hproper.isWriting, fun q hq => (hproper.prefix_of_isWriting hq).length_le⟩

/-! ## Numbers -/

/-- The numbers up to the first component that spells none. -/
def leading : List Component → List UInt64
  | .number n :: rest => n :: leading rest
  | _ => []

theorem numbers_eq_take (components : List Component) :
    (ofComponents components).numbers = (leading components).take 3 := by
  rcases components with _ | ⟨_ | _, _ | ⟨_ | _, _ | ⟨_ | _, components⟩⟩⟩ <;> rfl

/-- The components that give the numbers: those of ASCII digits, up to the first other one. -/
def giving (parts : List (List Char)) : List (List Char) :=
  parts.takeWhile fun part => part.all Char.isDigit

theorem giving_cons (part : List Char) (parts : List (List Char)) :
    giving (part :: parts) = if part.all Char.isDigit then part :: giving parts else [] :=
  List.takeWhile_cons

/-- What gives a number is digits of ASCII. -/
theorem isDigit_of_mem_giving {part : List Char} {parts : List (List Char)}
    (h : part ∈ giving parts) : ∀ c ∈ part, c.isDigit = true := by
  induction parts with
  | nil => cases h
  | cons first parts ih =>
    rw [giving_cons] at h
    split at h
    case isTrue hall =>
      rcases List.mem_cons.mp h with rfl | h
      · exact List.all_eq_true.mp hall
      · exact ih h
    case isFalse => cases h

/-- A component spells a number if it is made of ASCII digits. -/
theorem IsComponent.ofText_of_ascii {part : List Char} (h : IsComponent part)
    (hascii : part.all Char.isDigit = true) :
    ∃ n, Component.ofText part = .number n ∧ n.toNat = Version.number part := by
  rw [List.all_eq_true] at hascii
  rcases h with ⟨c, hwild, rfl⟩ | ⟨hshort, -⟩
  · have hdigit := isDigit_of_ascii (hascii c List.mem_cons_self)
    rw [isDigit_eq_false_of_isWildcard hwild] at hdigit
    cases hdigit
  · obtain ⟨n, hn, hnumber⟩ := Version.component?_of_ascii hshort hascii
    refine ⟨n, ?_, hnumber⟩
    rw [Component.ofText, hn, Option.elim_some]

/-- And it spells none otherwise. -/
theorem Component.ofText_of_foreign {part : List Char} (hforeign : part.all Char.isDigit = false) :
    ofText part = .wildcard := by
  obtain ⟨c, hc, hcdigit⟩ := List.all_eq_false.mp hforeign
  rw [ofText, Version.component?_of_foreign hc (by simpa using hcdigit), Option.elim_none]

/-- The leading numbers are those that the components spell. -/
theorem leading_ofText {parts : List (List Char)} (h : ∀ part ∈ parts, IsComponent part) :
    (leading (parts.map .ofText)).map UInt64.toNat = (giving parts).map Version.number := by
  induction parts with
  | nil => rfl
  | cons part parts ih =>
    rw [List.forall_mem_cons] at h
    rw [List.map_cons, giving_cons]
    cases hascii : part.all Char.isDigit with
    | true =>
      obtain ⟨n, hn, hnumber⟩ := h.1.ofText_of_ascii hascii
      rw [hn, leading, List.map_cons, hnumber, ih h.2, if_pos rfl, List.map_cons]
    | false =>
      rw [Component.ofText_of_foreign hascii, if_neg Bool.false_ne_true]
      rfl

/-- **The numbers of a literal are those that its components spell**, up to the first that is not of
ASCII digits. -/
theorem Parts.Proper.numbers_eq {p : Parts} (h : p.Proper) :
    (ofComponents (p.components.map .ofText)).numbers.map UInt64.toNat =
      (giving p.components).map Version.number := by
  rw [numbers_eq_take, List.map_take, leading_ofText h.components, List.take_of_length_le]
  rw [List.length_map]
  exact (List.takeWhile_sublist _).length_le.trans h.atMostThree

/-! ## Literals -/

/-- How a text is read as a literal. -/
structure ReadsLongestChain (cs : List Char) : Prop where
  /-- It is accepted iff it can be written as one. -/
  accepts : (read? cs).isSome = true ↔ ∃ p, IsWriting cs p
  /-- Then there is a writing with the longest chain of components. -/
  exists_longest : (∃ p, IsWriting cs p) → ∃ p, IsLongest cs p
  /-- All other chains are beginnings of that one. -/
  chains : ∀ p q, IsLongest cs p → IsWriting cs q → q.components <+: p.components
  /-- Its components give the numbers, as far as they spell any. -/
  numbers : ∀ p, IsLongest cs p → ∃ l, read? cs = some l ∧
    l.numbers.map UInt64.toNat = (giving p.components).map Version.number
  /-- Without the other parts the same is read. -/
  others : ∀ p, IsLongest cs p → read? (['.'].intercalate p.components) = read? cs
  /-- The pattern, too, reads the same. -/
  matched : matched? cs = read? cs

/-- The components of a literal alone are a literal. -/
theorem Parts.Proper.bare {p : Parts} (h : p.Proper) : Parts.Proper
    { marker := [], components := p.components, fourth := [], qualifier := [], build := [] } :=
  ⟨.inl rfl, h.filled, h.atMostThree, h.components, .inl rfl, fun hne => absurd rfl hne, .inl rfl,
    rfl⟩

/-- **Which texts are literals, and what is read of them.**  A text is accepted iff it can be written
as an optional marker, one to three components joined by dots, each 1 to 16 digits or a wildcard, an
optional fourth number, qualifier and build mark.  Among the ways to write it there is one with the
longest chain of components, and the chain of any other is a beginning of it.  The numbers are those
that its components spell, up to the first that is a wildcard or has a digit that is not an ASCII
one; marker, fourth number, qualifier and build mark do not change them.  The pattern, which tries
one way after the other, reads the same. -/
theorem reads_longest_chain (cs : List Char) : ReadsLongestChain cs where
  accepts := by
    constructor
    · intro hsome
      obtain ⟨l, hl⟩ := Option.isSome_iff_exists.mp hsome
      obtain ⟨p, hproper, rfl, -⟩ := read?_eq_some_iff.mp hl
      exact ⟨p, hproper.isWriting⟩
    · rintro ⟨p, hwriting⟩
      obtain ⟨q, hproper, rfl, -⟩ := hwriting.exists_proper
      rw [hproper.read?_text]
      rfl
  exists_longest := by
    rintro ⟨p, hwriting⟩
    obtain ⟨q, hproper, htext, -⟩ := hwriting.exists_proper
    exact ⟨q, isLongest_iff.mpr ⟨hproper, htext⟩⟩
  chains := by
    intro p q hlongest hwriting
    obtain ⟨hproper, rfl⟩ := isLongest_iff.mp hlongest
    exact hproper.prefix_of_isWriting hwriting
  numbers := by
    intro p hlongest
    obtain ⟨hproper, rfl⟩ := isLongest_iff.mp hlongest
    exact ⟨_, hproper.read?_text, hproper.numbers_eq⟩
  others := by
    intro p hlongest
    obtain ⟨hproper, rfl⟩ := isLongest_iff.mp hlongest
    have hbare := hproper.bare.read?_text
    rw [hproper.read?_text, ← hbare]
    simp [Parts.text]
  matched := matched?_eq_read? cs

end ReleaseMatrix.Literal
