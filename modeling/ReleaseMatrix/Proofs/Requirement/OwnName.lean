/-
  Own names — a literal that is used as a name holds its own floor, and meets the requirement that
  names it.

  Names and literals are read by different rules.  A name is searched for its first short run and
  what follows behind dots; a literal is read as a whole, with wildcards, a fourth number and marks:

      v8.x.3            8 | x | 3                8.0.0       the run 3 is not right behind 8
      8.1X.3+4.5        8 | 1  and  X.3  +4.5    8.1.0       nor is it here, behind 1
      8.1.2.27          8 | 1 | 2  and  .27      8.1.2       two runs are taken behind the first

  But where a component of digits ends no digit follows, and what follows the components begins with
  a dot behind three of them only.  So the runs of the name are the components up to the first
  wildcard, and these are what gives the numbers of the literal.

  1. **Runs** — `Parts.Proper.componentRuns_text`.
  2. **Names** — `extract?_of_read?`: the version that the name holds is the floor.
  3. **Requirements** — `admits_floor`, and `satisfies_itself`.
-/
import ReleaseMatrix.Proofs.Literal.Writing
import ReleaseMatrix.Proofs.Requirement.Line

namespace ReleaseMatrix

/-! ## Runs -/

namespace Version

open Text Literal

/-- Behind a component comes a dot, or the tail. -/
theorem isDigit_behind_component (others : List (List Char)) {tail : List Char}
    (htail : ∀ c ∈ tail.head?, isDigit c = false) :
    ∀ c ∈ (others.flatMap ('.' :: ·) ++ tail).head?, isDigit c = false := by
  cases others with
  | nil => simpa using htail
  | cons next others =>
    intro c hc
    rw [← Option.some.inj hc]
    decide

/-- **The dotted runs are the components of digits**, up to the first that is not one, by induction on
the components. -/
theorem dottedRuns_components {n : Nat} {others : List (List Char)} {tail : List Char}
    (hothers : ∀ part ∈ others, IsComponent part)
    (hascii : ∀ part ∈ others, ∀ c ∈ part, c.toNat < 128) (hlength : others.length ≤ n)
    (htail : ∀ c ∈ tail.head?, isDigit c = false)
    (hdot : tail.head? = some '.' → others.length = n) :
    dottedRuns n (others.flatMap ('.' :: ·) ++ tail) = giving others := by
  induction others generalizing n with
  | nil =>
    cases n with
    | zero => rfl
    | succ n =>
      have hnone : dottedRun tail = none := dottedRun_of_ne fun h => absurd (hdot h) (by simp)
      rw [List.flatMap_nil, List.nil_append, dottedRuns, hnone]
      rfl
  | cons part others ih =>
    rw [List.forall_mem_cons] at hothers hascii
    cases n with
    | zero => exact absurd hlength (by simp)
    | succ n =>
      have hrest := isDigit_behind_component others htail
      rw [List.flatMap_cons, List.append_assoc, List.cons_append, dottedRuns, dottedRun,
        giving_cons]
      rcases hothers.1 with ⟨c, hwild, rfl⟩ | ⟨hshort, hdigits⟩
      · -- a wildcard ends the runs
        have hc : isDigit c = false := isDigit_eq_false_of_isWildcard hwild
        have hforeign : c.isDigit = false := by
          rwa [← isDigit_eq_of_ascii (hascii.1 c List.mem_cons_self)]
        rw [List.singleton_append, splitRun_cons_of_not_digit hc]
        simp [isShort, hforeign]
      · have hall := all_isDigit_of_ascii hdigits hascii.1
        have hmore := ih hothers.2 hascii.2 (by simpa using hlength) (by simpa using hdot)
        rw [splitRun_append_of_digits hdigits hrest, if_pos hshort, if_pos hall, ← hmore]

/-- A component of digits is the first run, if no digit stands in front of it. -/
theorem firstRun_append {part rest : List Char} (hshort : isShort part = true)
    (hdigits : ∀ c ∈ part, isDigit c = true) (hrest : ∀ c ∈ rest.head?, isDigit c = false) :
    firstRun (part ++ rest) = some (part, rest) := by
  obtain ⟨c, cs, rfl⟩ := List.exists_cons_of_length_pos (isShort_iff.mp hshort).1
  have hrun := splitRun_append_of_digits hdigits hrest
  rw [List.cons_append] at hrun ⊢
  rw [firstRun, if_pos (hdigits c List.mem_cons_self)]
  simp only [hrun, if_pos hshort]

/-- A marker in front of a literal is no digit, so it hides no run. -/
theorem firstRun_of_marker {marker : List Char}
    (h : marker = [] ∨ marker = ['v'] ∨ marker = ['V']) (cs : List Char) :
    firstRun (marker ++ cs) = firstRun cs := by
  have hv : isDigit 'v' = false := by decide
  have hV : isDigit 'V' = false := by decide
  rcases h with rfl | rfl | rfl
  · rfl
  · rw [List.singleton_append, firstRun, hv, if_neg Bool.false_ne_true]
  · rw [List.singleton_append, firstRun, hV, if_neg Bool.false_ne_true]

end Version

namespace Literal

open Text Version

/-- The first component of a literal with numbers is made of digits. -/
theorem Parts.Proper.exists_first {p : Parts} (h : p.Proper)
    (hany : (ofComponents (p.components.map .ofText)).isAny = false) :
    ∃ first others, p.components = first :: others ∧ isShort first = true ∧
      ∀ c ∈ first, isDigit c = true := by
  obtain ⟨first, others, hcons⟩ := List.exists_cons_of_ne_nil h.filled
  refine ⟨first, others, hcons, ?_⟩
  rcases h.components first (by simp [hcons]) with ⟨c, hwild, rfl⟩ | hdigits
  · rw [hcons, List.map_cons, Component.ofText_wildcard hwild] at hany
    cases hany
  · exact hdigits

/-- **The runs of its text are the components of a literal**, up to the first wildcard. -/
theorem Parts.Proper.componentRuns_text {p : Parts} (h : p.Proper)
    (hany : (ofComponents (p.components.map .ofText)).isAny = false)
    (hascii : ∀ c ∈ p.text, c.toNat < 128) : componentRuns p.text = giving p.components := by
  obtain ⟨first, others, hcons, hshort, hdigits⟩ := h.exists_first hany
  let tail := p.fourth ++ (p.qualifier ++ p.build)
  have htext : p.text = p.marker ++ (first ++ (others.flatMap ('.' :: ·) ++ tail)) := by
    rw [Parts.text, hcons, intercalate_cons_eq, List.append_assoc]
  have hparts : ∀ part ∈ p.components, ∀ c ∈ part, c.toNat < 128 :=
    fun part hpart c hc => hascii c (Parts.mem_text hpart hc)
  have hlength := h.atMostThree
  have hcomponents := h.components
  obtain ⟨htail, hdot⟩ := h.head?_tail
  rw [hcons, List.forall_mem_cons] at hparts hcomponents
  rw [hcons, List.length_cons] at hlength hdot
  have hrest := isDigit_behind_component others htail
  have hall := all_isDigit_of_ascii hdigits hparts.1
  -- a tail begins with a dot only if the literal has three components, and then no run is missing
  have hmore : dottedRuns 2 (others.flatMap ('.' :: ·) ++ tail) = giving others :=
    dottedRuns_components hcomponents.2 hparts.2 (by omega) htail fun hhead => by
      have := hdot hhead
      omega
  rw [componentRuns_eq, htext, firstRun_of_marker h.marker, firstRun_append hshort hdigits hrest,
    hcons, giving_cons, if_pos hall, ← hmore]

end Literal

/-! ## Names -/

namespace Version

open Literal

/-- **A literal used as a name holds its floor**, if it gives a number and is written in ASCII. -/
theorem extract?_of_read? {text : String} {l : Literal} (hread : read? text.toList = some l)
    (hany : l.isAny = false) (hascii : ∀ c ∈ text.toList, c.toNat < 128) :
    extract? text = some l.floor := by
  obtain ⟨p, hproper, htext, rfl⟩ := read?_eq_some_iff.mp hread
  rw [← htext] at hascii
  have hruns := hproper.componentRuns_text hany hascii
  rw [htext] at hruns
  have hshort : ∀ run ∈ giving p.components, isShort run = true := by
    rw [← hruns]
    exact fun _ => isShort_of_mem_componentRuns
  obtain ⟨ns, hns, hnumbers⟩ := mapM_component?_of_ascii hshort fun _ => isDigit_of_mem_giving
  rw [← hproper.numbers_eq] at hnumbers
  -- both sides spell the same digits, so they are the same words
  have hsame : ns = (ofComponents (p.components.map .ofText)).numbers :=
    List.map_injective_iff.mpr (fun _ _ => UInt64.toNat_inj.mp) hnumbers
  rw [extract?, hruns, hns, hsame]
  generalize ofComponents (p.components.map .ofText) = l at hany
  cases l with
  | any => cases hany
  | major | minor | patch => rfl

end Version

/-! ## Requirements -/

/-- The signs that leave the least version of a literal in. -/
def Sign.inclusive : List Sign :=
  [.compare .equal, .compare .greaterOrEqual, .compare .lessOrEqual, .tilde, .caret]

namespace Literal

/-- The floor of a literal is in its cell, so it is related to it by whatever an equal is. -/
theorem floor_relatesTo {op : Operator} (hop : op ∈ Operator.reflexive) (l : Literal) :
    op.RelatesTo l.Cell l.floor := by
  simp only [Operator.reflexive, List.mem_cons, List.not_mem_nil, or_false] at hop
  rcases hop with rfl | rfl | rfl
  · exact l.cell_floor
  · exact ⟨l.floor, l.cell_floor, le_refl _⟩
  · exact ⟨l.floor, l.cell_floor, le_refl _⟩

/-- **The floor of a literal is admitted** behind each of these signs. -/
theorem admits_floor {l : Literal} (hbounded : l.Bounded) {sign : Sign}
    (hsign : sign ∈ Sign.inclusive) :
    ∃ c, sign.constraint? l = some c ∧ c.admits l.floor = true := by
  have hcompared {op : Operator} (hop : op ∈ Operator.reflexive) :
      (l.compared op).admits l.floor = true :=
    (admits_compared hbounded op l.floor).mpr (floor_relatesTo hop l)
  simp only [Sign.inclusive, List.mem_cons, List.not_mem_nil, or_false] at hsign
  rcases hsign with rfl | rfl | rfl | rfl | rfl
  · exact ⟨_, rfl, hcompared (by decide)⟩
  · exact ⟨_, rfl, hcompared (by decide)⟩
  · exact ⟨_, rfl, hcompared (by decide)⟩
  · exact ⟨_, rfl, (admits_tilde hbounded _).mpr (line_floor (List.take_prefix 2 _))⟩
  · exact ⟨_, rfl, (admits_caret hbounded _).mpr (line_floor (Literal.throughNonzero_prefix _))⟩

end Literal

namespace Requirement

/-- **Operands and names are read alike.**  A text that is accepted as a literal, gives a number and
is written in ASCII holds, as a name, the floor of that literal; whatever else is in it.  So the name
satisfies the requirement that it is itself, and also behind `=`, `>=`, `<=`, `~` and `^`, and these
requirements are read without a problem. -/
theorem satisfies_itself {text : String} {l : Literal}
    (hread : Literal.read? text.toList = some l) (hany : l.isAny = false)
    (hascii : ∀ c ∈ text.toList, c.toNat < 128) :
    Version.extract? text = some l.floor ∧
    ∀ spelling ∈ ["", "=", "==", ">=", "<=", "~", "^"],
      (ofText (spelling ++ text)).problems = [] ∧
      (ofText (spelling ++ text)).satisfiedBy text = true := by
  have hextract := Version.extract?_of_read? hread hany hascii
  refine ⟨hextract, fun spelling hmem => ?_⟩
  have hsign : ∃ sign ∈ Sign.inclusive, (spelling, sign) ∈ Sign.spellings := by
    revert spelling
    decide
  obtain ⟨sign, hinclusive, hspelling⟩ := hsign
  obtain ⟨c, hc, hfloor⟩ := Literal.admits_floor (Literal.bounded_of_read? hread) hinclusive
  obtain ⟨hproblems, hadmits⟩ := means_of_spelling hspelling hread hc
  exact ⟨hproblems, satisfiedBy_iff.mpr ⟨l.floor, hextract, (hadmits l.floor).mpr hfloor⟩⟩

/-- A wildcard that is followed by a word, and marks with dots and digits: only two numbers count. -/
theorem satisfies_itself_marked :
    let text := "v8.9999999999999999X.3-1+4.5"
    Literal.read? text.toList = some (.minor 8 9999999999999999) ∧
    Version.extract? text = some ⟨8, 9999999999999999, 0⟩ ∧
    (ofText ("^" ++ text)).satisfiedBy text = true := by
  intro text
  have hread : Literal.read? text.toList = some (.minor 8 9999999999999999) := by decide +kernel
  have hascii : ∀ c ∈ text.toList, c.toNat < 128 := by
    have hall : (text.toList.all fun c => c.toNat < 128) = true := by decide +kernel
    simpa using hall
  have hboth := satisfies_itself hread rfl hascii
  exact ⟨hread, hboth.1, (hboth.2 "^" (by decide)).2⟩

end Requirement
end ReleaseMatrix
