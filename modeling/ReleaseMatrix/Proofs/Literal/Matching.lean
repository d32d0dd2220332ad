/-
  Matching literals — the pattern of a literal finds what one reading from left to right finds.

  The whole text must match; \d is a decimal digit of any script, and M is [0-9A-Za-z.-].

      ^  [vV]?  (\d{1,16}|[xX*])  (?:\.(\d{1,16}|[xX*]))?  (?:\.(\d{1,16}|[xX*]))?
         marker      first                second                   third
         (?:\.\d{1,16})?  (?:-M+|[A-Za-z]M*)?  (?:\+M+)?  $
             fourth           qualifier          build

  Many ways have to be given up.  A dot may begin the second component, the third, or the fourth
  number, so `8.1` could be 8 with a fourth number, and marks can be taken one by one.  But what is
  behind marks refuses marks, what is behind digits refuses digits, and where a match goes on with a
  component less it also goes on with one more (`isSome_chain?_succ`).  So the preferred way takes
  all that it can, and no second thought leads further.

  1. **The pattern** — `pattern`, and `matched?`, what its groups spell.
  2. **The tail** — `ways_tail`: there is one way behind the components, or none.
  3. **Components** — `ways_component`, of the ways of one at most one counts.
  4. **Chains** — `chain?`, the components behind dots, up to so many.
  5. **Preferred ways** — `Leads`, by induction on the components in front of the tail.
  6. **Literals** — `find?_pattern`, `matched?_eq_read?`.
-/
import ReleaseMatrix.Proofs.Literal.Grammar
import ReleaseMatrix.Proofs.Version.Matching

namespace ReleaseMatrix.Literal

open Text Pattern
open Version (numbered lookup_numbered)

/-! ## The pattern -/

/-- A `v` or `V`, or nothing. -/
def markerPattern : Pattern := orEmpty (one fun c => c == 'v' || c == 'V')

/-- 1 to 16 digits or a wildcard, kept under its number. -/
def componentPattern (number : Nat) : Pattern :=
  group number (either (oneUpTo isDigit 16) (one isWildcard))

/-- A dot and a component, or nothing. -/
def dottedPattern (number : Nat) : Pattern :=
  orEmpty (seq (one (· == '.')) (componentPattern number))

/-- A dot and 1 to 16 digits, or nothing. -/
def fourthPattern : Pattern := orEmpty (seq (one (· == '.')) (oneUpTo isDigit 16))

/-- A hyphen and marks, or a letter and marks if any, or nothing. -/
def qualifierPattern (longest : Nat) : Pattern :=
  orEmpty (either (seq (one (· == '-')) (oneUpTo isMark longest))
    (seq (one Char.isAlpha) (upTo isMark longest)))

/-- A plus and marks, or nothing. -/
def buildPattern (longest : Nat) : Pattern :=
  orEmpty (seq (one (· == '+')) (oneUpTo isMark longest))

/-- What stands behind the qualifier. -/
def buildTail (longest : Nat) : Pattern := seq (buildPattern longest) finish

/-- What stands behind the fourth number. -/
def markTail (longest : Nat) : Pattern := seq (qualifierPattern longest) (buildTail longest)

/-- What stands behind the components. -/
def tailPattern (longest : Nat) : Pattern := seq fourthPattern (markTail longest)

/-- What stands behind the marker. -/
def componentsPattern (longest : Nat) : Pattern :=
  seq (componentPattern 1) (seq (dottedPattern 2) (seq (dottedPattern 3) (tailPattern longest)))

/-- A literal in which no repetition has more than `longest` characters. -/
def pattern (longest : Nat) : Pattern :=
  seq start (seq markerPattern (componentsPattern longest))

/-- The literal that the groups of the match spell: each number that a group spells, as long as no
group before it spells none.  No repetition can be longer than the text. -/
def matched? (cs : List Char) : Option Literal := do
  let groups ← (pattern cs.length).find? cs
  let component (group : Nat) : Option UInt64 := (groups.lookup group).bind Version.component?
  return match component 1, component 2, component 3 with
    | none, _, _ => any
    | some a, none, _ => major a
    | some a, some b, none => minor a b
    | some a, some b, some c => patch a b c

/-! ## The tail -/

section

variable {longest : Nat}

theorem isTail_eq (cs : List Char) :
    isTail cs = ((dropFourth? cs).bind dropQualifier?).any isBuild := by
  rw [isTail]
  cases (dropFourth? cs).bind dropQualifier? <;> rfl

/-- Behind a plus there are marks to the end, and at least one. -/
theorem isBuild_plus (cs : List Char) : isBuild ('+' :: cs) = true ↔
    0 < (cs.takeWhile isMark).length ∧ cs.dropWhile isMark = [] := by
  cases cs with
  | nil => simp [isBuild]
  | cons c cs => cases hc : isMark c <;> simp [isBuild, hc]

/-- What begins with anything but a plus is no build. -/
theorem isBuild_cons_of_ne {c : Char} (hc : c ≠ '+') (cs : List Char) :
    isBuild (c :: cs) = false := by
  unfold isBuild
  split
  case h_1 heq => cases heq
  case h_2 heq => exact absurd (List.cons.inj heq).1 hc
  case h_3 => rfl

/-- What follows the first character of a text, and any part of it, is no longer than the text. -/
theorem length_parts_le (p : Char → Bool) {c : Char} {cs : List Char}
    (h : (c :: cs).length ≤ longest) :
    (cs.takeWhile p).length ≤ longest ∧ (cs.dropWhile p).length ≤ longest := by
  have htake := (List.takeWhile_sublist (l := cs) p).length_le
  have hdrop := (List.dropWhile_sublist (l := cs) p).length_le
  rw [List.length_cons] at h
  omega

theorem ways_finish (s : Spot) : finish.ways s = if s.ahead = [] then [s] else [] := by
  cases hs : s.ahead <;> simp [ways, hs]

theorem ways_buildTail_of_ne {c : Char} (hplus : c ≠ '+') (cs : List Char)
    (groups : List (Nat × List Char)) : (buildTail longest).ways ⟨false, c :: cs, groups⟩ = [] := by
  simp [buildTail, buildPattern, ways_finish, hplus]

/-- No mark can follow there, so a qualifier that leaves marks behind is given up. -/
theorem refuses_buildTail : Refuses isMark (buildTail longest).ways := by
  intro c cs groups hc
  refine ways_buildTail_of_ne ?_ cs groups
  rintro rfl
  exact absurd hc (by decide)

/-- Behind the qualifier there is one way, or none. -/
theorem ways_buildTail {cs : List Char} (hlength : cs.length ≤ longest)
    (groups : List (Nat × List Char)) : (buildTail longest).ways ⟨false, cs, groups⟩ =
      if isBuild cs then [⟨false, [], groups⟩] else [] := by
  cases cs with
  | nil => simp [buildTail, buildPattern, ways_finish, isBuild]
  | cons c cs =>
    by_cases hplus : c = '+'
    · subst hplus
      have hpositive : 0 < longest := Nat.lt_of_lt_of_le (Nat.succ_pos _) hlength
      have hshort := (length_parts_le isMark hlength).1
      have hmarks : ((oneUpTo isMark longest).ways ⟨false, cs, groups⟩).flatMap finish.ways =
          if isBuild ('+' :: cs) then [⟨false, [], groups⟩] else [] := by
        have hrefuses : Refuses isMark finish.ways := fun _ _ _ _ => rfl
        rw [ways_oneUpTo hrefuses hpositive, ways_finish]
        by_cases hends : cs.dropWhile isMark = []
        · simp only [isBuild_plus, hshort, hends, and_true, if_true]
        · simp only [isBuild_plus, hends, and_false, if_false, ite_self]
      simpa [buildTail, buildPattern, ways_finish] using hmarks
    · rw [ways_buildTail_of_ne hplus, isBuild_cons_of_ne hplus]
      rfl

/-- Behind a hyphen a qualifier takes all marks, and needs one. -/
theorem dropQualifier?_hyphen (cs : List Char) : dropQualifier? ('-' :: cs) =
    if 0 < (cs.takeWhile isMark).length then some (cs.dropWhile isMark) else none := by
  cases cs with
  | nil => rfl
  | cons c cs => cases hc : isMark c <;> simp [dropQualifier?, hc]

theorem ways_markTail_of_ne {c : Char} (hhyphen : c ≠ '-') (halpha : c.isAlpha = false)
    (hplus : c ≠ '+') (cs : List Char) (groups : List (Nat × List Char)) :
    (markTail longest).ways ⟨false, c :: cs, groups⟩ = [] := by
  simp [markTail, qualifierPattern, ways_buildTail_of_ne hplus, hhyphen, halpha]

/-- Behind the fourth number there is one way, or none. -/
theorem ways_markTail {cs : List Char} (hlength : cs.length ≤ longest)
    (groups : List (Nat × List Char)) : (markTail longest).ways ⟨false, cs, groups⟩ =
      if (dropQualifier? cs).any isBuild then [⟨false, [], groups⟩] else [] := by
  cases cs with
  | nil => simp [markTail, qualifierPattern, ways_buildTail, dropQualifier?, isBuild]
  | cons c cs =>
    have hpositive : 0 < longest := Nat.lt_of_lt_of_le (Nat.succ_pos _) hlength
    obtain ⟨hshort, hbehind⟩ := length_parts_le isMark hlength
    by_cases hhyphen : c = '-'
    · -- a hyphen: marks must follow, and all of them are taken
      subst hhyphen
      have hmarks : (markTail longest).ways ⟨false, '-' :: cs, groups⟩ =
          ((oneUpTo isMark longest).ways ⟨false, cs, groups⟩).flatMap (buildTail longest).ways := by
        have halpha : Char.isAlpha '-' = false := by decide
        have hplus : '-' ≠ '+' := by decide
        simp [markTail, qualifierPattern, ways_buildTail_of_ne hplus, halpha]
      rw [hmarks, ways_oneUpTo refuses_buildTail hpositive, dropQualifier?_hyphen,
        ways_buildTail hbehind]
      by_cases hfilled : 0 < (cs.takeWhile isMark).length
      · simp only [hfilled, hshort, and_self, if_true, Option.any_some]
      · simp only [hfilled, false_and, if_false, Option.any_none, Bool.false_eq_true]
    · -- no hyphen: a letter begins the qualifier, or there is none
      rw [dropQualifier?_cons hhyphen]
      cases halpha : c.isAlpha with
      | true =>
        have hplus : c ≠ '+' := by
          rintro rfl
          exact absurd halpha (by decide)
        have hmarks : (markTail longest).ways ⟨false, c :: cs, groups⟩ =
            ((upTo isMark longest).ways ⟨false, cs, groups⟩).flatMap (buildTail longest).ways := by
          simp [markTail, qualifierPattern, ways_buildTail_of_ne hplus, halpha, hhyphen]
        rw [hmarks, ways_upTo refuses_buildTail, if_pos hshort, ways_buildTail hbehind]
        rfl
      | false =>
        have hnone : (markTail longest).ways ⟨false, c :: cs, groups⟩ =
            (buildTail longest).ways ⟨false, c :: cs, groups⟩ := by
          simp [markTail, qualifierPattern, halpha, hhyphen]
        rw [hnone, ways_buildTail hlength]
        rfl

/-- No digit can follow there, so a fourth number that leaves digits behind is given up. -/
theorem refuses_markTail : Refuses isDigit (markTail longest).ways := by
  intro c cs groups hc
  have halpha : c.isAlpha = false := by
    rw [Bool.eq_false_iff]
    intro halpha
    rw [isDigit_eq_false_of_isAlpha halpha] at hc
    cases hc
  have hhyphen : c ≠ '-' := ne_of_isDigit hc (by decide)
  have hplus : c ≠ '+' := ne_of_isDigit hc (by decide)
  exact ways_markTail_of_ne hhyphen halpha hplus cs groups

/-- A pattern behind a dot is passed by where no dot stands. -/
theorem ways_dot_of_ne (a : Pattern) {cs : List Char} (hdot : cs.head? ≠ some '.')
    (groups : List (Nat × List Char)) :
    (orEmpty (seq (one (· == '.')) a)).ways ⟨false, cs, groups⟩ = [⟨false, cs, groups⟩] := by
  cases cs with
  | nil => simp
  | cons c cs =>
    have hc : c ≠ '.' := fun h => hdot (congrArg some h)
    simp [hc]

/-- **Behind the components there is one way, or none.** -/
theorem ways_tail {cs : List Char} (hlength : cs.length ≤ longest)
    (groups : List (Nat × List Char)) : (tailPattern longest).ways ⟨false, cs, groups⟩ =
      if isTail cs then [⟨false, [], groups⟩] else [] := by
  rw [isTail_eq]
  by_cases hdot : cs.head? = some '.'
  · obtain ⟨cs, rfl⟩ := List.head?_eq_some_iff.mp hdot
    -- a dot can only begin the fourth number, since the rest of the tail begins with none
    have hbehind := (length_parts_le isDigit hlength).2
    have hnone : (markTail longest).ways ⟨false, '.' :: cs, groups⟩ = [] :=
      ways_markTail_of_ne (by decide) (by decide) (by decide) cs groups
    have hdigits : (tailPattern longest).ways ⟨false, '.' :: cs, groups⟩ =
        ((oneUpTo isDigit 16).ways ⟨false, cs, groups⟩).flatMap (markTail longest).ways := by
      simp [tailPattern, fourthPattern, hnone]
    have hshort : 0 < (cs.takeWhile isDigit).length ∧ (cs.takeWhile isDigit).length ≤ 16 ↔
        Version.isShort (splitRun cs).1 = true := Version.isShort_iff.symm
    rw [hdigits, ways_oneUpTo refuses_markTail (by omega), ways_markTail hbehind]
    simp only [hshort, dropFourth?]
    cases Version.isShort (splitRun cs).1 <;> rfl
  · -- no dot: there is no fourth number
    have htail : (tailPattern longest).ways ⟨false, cs, groups⟩ =
        (markTail longest).ways ⟨false, cs, groups⟩ := by
      rw [tailPattern, fourthPattern, ways_seq, ways_dot_of_ne _ hdot, List.flatMap_singleton]
    rw [htail, ways_markTail hlength, dropFourth?_of_ne hdot]
    rfl

/-- Neither can a digit follow the components, where no dot comes first. -/
theorem refuses_tail : Refuses isDigit (tailPattern longest).ways := by
  intro c cs groups hc
  have hdot : (c :: cs).head? ≠ some '.' := fun h =>
    ne_of_isDigit hc (by decide : isDigit '.' = false) (Option.some.inj h)
  rw [tailPattern, fourthPattern, ways_seq, ways_dot_of_ne _ hdot, List.flatMap_singleton]
  exact refuses_markTail c cs groups hc

end

/-! ## Components -/

/-- The component that a text begins with, and what follows it. -/
def Component.split? : List Char → Option (List Char × List Char)
  | [] => none
  | c :: cs =>
    if isWildcard c then some ([c], cs)
    else if Version.isShort (splitRun (c :: cs)).1 then some (splitRun (c :: cs)) else none

/-- Reading a component is cutting it off and reading what was cut off. -/
theorem Component.read?_eq (cs : List Char) :
    Component.read? cs = (split? cs).map fun (part, rest) => (ofText part, rest) := by
  cases cs with
  | nil => rfl
  | cons c cs =>
    rw [read?, split?]
    split
    case isTrue hwild =>
      rw [← ofText_wildcard hwild]
      rfl
    case isFalse =>
      dsimp only
      split <;> rfl

/-- What follows a component is no longer than the text was. -/
theorem Component.length_of_split? {cs part rest : List Char}
    (h : split? cs = some (part, rest)) : rest.length ≤ cs.length := by
  unfold split? at h
  split at h
  case h_1 => cases h
  case h_2 c cs =>
    split at h
    case isTrue =>
      cases h
      exact Nat.le_succ _
    case isFalse =>
      split at h
      case isTrue =>
        cases h
        exact (List.dropWhile_sublist isDigit).length_le
      case isFalse => cases h

/-- Of a component only all of it lets a match go on. -/
theorem ways_component {go : Spot → List Spot} (hgo : Refuses isDigit go) (number : Nat)
    (s : Spot) : ((componentPattern number).ways s).flatMap go =
      match Component.split? s.ahead with
      | some (part, rest) => go ⟨false, rest, s.groups ++ [(number, part)]⟩
      | none => [] := by
  obtain ⟨atStart, ahead, groups⟩ := s
  -- digits are tried before a wildcard, but no text begins with both
  have hways (s : Spot) : (componentPattern number).ways s =
      (group number (oneUpTo isDigit 16)).ways s ++ (group number (one isWildcard)).ways s :=
    List.map_append
  rw [hways, List.flatMap_append, ways_group_oneUpTo hgo number (by omega)]
  cases ahead with
  | nil => simp [ways, Component.split?]
  | cons c cs =>
    cases hwild : isWildcard c with
    | true =>
      have hdigit := isDigit_eq_false_of_isWildcard hwild
      simp [ways, Component.split?, hwild, hdigit]
    | false =>
      have hshort : 0 < ((c :: cs).takeWhile isDigit).length ∧
          ((c :: cs).takeWhile isDigit).length ≤ 16 ↔
            Version.isShort (splitRun (c :: cs)).1 = true := Version.isShort_iff.symm
      have hnone : (group number (one isWildcard)).ways ⟨atStart, c :: cs, groups⟩ = [] := by
        simp [ways, hwild]
      rw [hnone, List.flatMap_nil, List.append_nil, Component.split?, hwild]
      simp only [hshort, Bool.false_eq_true, if_false]
      cases Version.isShort (splitRun (c :: cs)).1 <;> rfl

/-! ## Chains -/

/-- The components behind dots, up to so many, as long as what follows them may stand there. -/
def chain? : Nat → List Char → Option (List (List Char))
  | 0, cs => if isTail cs then some [] else none
  | more + 1, cs =>
    match cs with
    | '.' :: behind => do
      let (part, rest) ← Component.split? behind
      let parts ← chain? more rest
      return part :: parts
    | cs => if isTail cs then some [] else none

/-- A component and up to `more` behind dots, as long as what follows them may stand there. -/
def written? (more : Nat) (cs : List Char) : Option (List (List Char)) :=
  (Component.split? cs).bind fun (part, rest) => (chain? more rest).map (part :: ·)

/-- Behind a dot the chain goes on with a component. -/
theorem chain?_dot (more : Nat) (cs : List Char) :
    chain? (more + 1) ('.' :: cs) = written? more cs := by
  rw [chain?, written?]
  cases Component.split? cs with
  | none => rfl
  | some found =>
    obtain ⟨part, rest⟩ := found
    cases hchain : chain? more rest <;> simp [hchain]

/-- Without a dot the chain is at its end, and the tail must follow. -/
theorem chain?_of_ne (count : Nat) {cs : List Char} (hdot : cs.head? ≠ some '.') :
    chain? count cs = if isTail cs then some [] else none := by
  cases count with
  | zero => rfl
  | succ count =>
    unfold chain?
    split
    · exact absurd rfl hdot
    · rfl

/-- Components are written there if one is, and a chain of others behind it. -/
theorem isSome_written?_iff {more : Nat} {cs : List Char} : (written? more cs).isSome = true ↔
    ∃ part rest, Component.split? cs = some (part, rest) ∧ (chain? more rest).isSome = true := by
  rw [written?]
  cases Component.split? cs with
  | none => simp
  | some found =>
    obtain ⟨part, rest⟩ := found
    simp

/-- Where a fourth number may stand, a component may stand as well. -/
theorem exists_of_isTail {cs : List Char} (h : isTail ('.' :: cs) = true) :
    ∃ part rest, Component.split? cs = some (part, rest) ∧ isTail rest = true := by
  rw [isTail_eq, dropFourth?] at h
  cases hshort : Version.isShort (splitRun cs).1 with
  | false => simp [hshort] at h
  | true =>
    simp only [hshort, if_true, Option.bind_some] at h
    refine ⟨(splitRun cs).1, (splitRun cs).2, ?_, ?_⟩
    · cases cs with
      | nil => cases hshort
      | cons c cs =>
        cases hc : isDigit c with
        | false =>
          rw [splitRun_cons_of_not_digit hc] at hshort
          cases hshort
        | true =>
          rw [Component.split?, isWildcard_eq_false_of_isDigit hc, if_neg Bool.false_ne_true,
            if_pos hshort]
    · -- behind the fourth number there is no other one, since a qualifier cannot begin with a dot
      have hdot : (splitRun cs).2.head? ≠ some '.' := by
        intro hdot
        obtain ⟨rest, hrest⟩ := List.head?_eq_some_iff.mp hdot
        rw [hrest, dropQualifier?_cons (by decide), Option.any_some, if_neg (by decide),
          isBuild_cons_of_ne (by decide)] at h
        cases h
      rw [isTail_eq, dropFourth?_of_ne hdot]
      exact h

/-- **A component more does no harm**, by induction on the components that may be taken before: what
one of them or a fourth number is now, is the next one then. -/
theorem isSome_chain?_succ {count : Nat} {cs : List Char} (h : (chain? count cs).isSome = true) :
    (chain? (count + 1) cs).isSome = true := by
  induction count generalizing cs with
  | zero =>
    by_cases hdot : cs.head? = some '.'
    · obtain ⟨cs, rfl⟩ := List.head?_eq_some_iff.mp hdot
      -- the dot began a fourth number, which is the component now
      have htail : isTail ('.' :: cs) = true := by simpa [chain?] using h
      obtain ⟨part, rest, hsplit, hrest⟩ := exists_of_isTail htail
      rw [chain?_dot, isSome_written?_iff]
      exact ⟨part, rest, hsplit, by simp [chain?, hrest]⟩
    · rwa [chain?_of_ne _ hdot, ← chain?_of_ne 0 hdot]
  | succ count ih =>
    by_cases hdot : cs.head? = some '.'
    · obtain ⟨cs, rfl⟩ := List.head?_eq_some_iff.mp hdot
      rw [chain?_dot, isSome_written?_iff] at h
      -- the dot begins a component, behind which one more can be taken
      obtain ⟨part, rest, hsplit, hrest⟩ := h
      rw [chain?_dot, isSome_written?_iff]
      exact ⟨part, rest, hsplit, ih hrest⟩
    · rwa [chain?_of_ne _ hdot, ← chain?_of_ne (count + 1) hdot]

/-! ## Preferred ways -/

/-- The pattern of components behind dots and of the tail: its preferred way keeps the chain of
components, numbered from `number` on. -/
structure Leads (a : Pattern) (longest number count : Nat) : Prop where
  refuses : Refuses isDigit a.ways
  prefers : ∀ (cs : List Char) (groups : List (Nat × List Char)), cs.length ≤ longest →
    (a.ways ⟨false, cs, groups⟩).head?.map Spot.groups =
      (chain? count cs).map fun parts => groups ++ numbered number parts

/-- In front of the tail alone, the chain is empty. -/
theorem leads_tail (longest number : Nat) : Leads (tailPattern longest) longest number 0 := by
  refine ⟨refuses_tail, fun cs groups hlength => ?_⟩
  rw [ways_tail hlength, chain?]
  split <;> simp [numbered]

namespace Leads

variable {a : Pattern} {longest number count : Nat} (h : Leads a longest (number + 1) count)
include h

/-- With a component in front, the preferred way keeps that component and the chain behind it. -/
theorem component (atStart : Bool) {cs : List Char} (groups : List (Nat × List Char))
    (hlength : cs.length ≤ longest) :
    (((componentPattern number).ways ⟨atStart, cs, groups⟩).flatMap a.ways).head?.map Spot.groups =
      (written? count cs).map fun parts => groups ++ numbered number parts := by
  rw [ways_component h.refuses, written?]
  cases hsplit : Component.split? cs with
  | none => rfl
  | some found =>
    obtain ⟨part, rest⟩ := found
    have hrest := (Component.length_of_split? hsplit).trans hlength
    dsimp only
    rw [h.prefers rest _ hrest, Option.bind_some, Option.map_map]
    simp [Function.comp_def, numbered]

/-- A component behind a dot may come first; where the dot begins one, nothing is lost by taking
it. -/
theorem dotted : Leads (seq (dottedPattern number) a) longest number (count + 1) := by
  refine ⟨fun c cs groups hc => ?_, fun cs groups hlength => ?_⟩
  · -- a digit is no dot, so it is left to what follows, which refuses it
    have hdot : (c :: cs).head? ≠ some '.' := fun hdot =>
      ne_of_isDigit hc (by decide : isDigit '.' = false) (Option.some.inj hdot)
    rw [dottedPattern, ways_seq, ways_dot_of_ne _ hdot, List.flatMap_singleton]
    exact h.refuses c cs groups hc
  · by_cases hdot : cs.head? = some '.'
    · obtain ⟨cs, rfl⟩ := List.head?_eq_some_iff.mp hdot
      have hways : (seq (dottedPattern number) a).ways ⟨false, '.' :: cs, groups⟩ =
          ((componentPattern number).ways ⟨false, cs, groups⟩).flatMap a.ways ++
            a.ways ⟨false, '.' :: cs, groups⟩ := by
        simp [dottedPattern]
      have hbehind : cs.length ≤ longest := (Nat.le_succ _).trans hlength
      rw [hways, List.head?_append, Option.map_or, h.component false groups hbehind,
        h.prefers _ groups hlength, chain?_dot]
      cases hwritten : written? count cs with
      | some parts => rfl
      | none =>
        -- without the component there is no way either
        have hnone : chain? count ('.' :: cs) = none := by
          rw [← Option.not_isSome_iff_eq_none]
          intro hsome
          have hmore := isSome_chain?_succ hsome
          rw [chain?_dot, hwritten] at hmore
          cases hmore
        rw [hnone]
        rfl
    · rw [dottedPattern, ways_seq, ways_dot_of_ne _ hdot, List.flatMap_singleton,
        h.prefers cs groups hlength, chain?_of_ne _ hdot, chain?_of_ne _ hdot]
      split <;> simp [numbered]

end Leads

/-! ## Literals -/

/-- Components are read as they are written, if what follows them may stand there. -/
theorem readComponents?_eq (more : Nat) (cs : List Char) :
    ((readComponents? more cs).bind fun (components, rest) =>
      if isTail rest then some components else none) =
      (written? more cs).map (List.map .ofText) := by
  induction more generalizing cs with
  | zero =>
    rw [readComponents?, Component.read?_eq, written?]
    cases hsplit : Component.split? cs with
    | none => rfl
    | some found =>
      obtain ⟨part, rest⟩ := found
      cases htail : isTail rest <;> simp [chain?, htail]
  | succ more ih =>
    rw [readComponents?, Component.read?_eq, written?]
    cases hsplit : Component.split? cs with
    | none => rfl
    | some found =>
      obtain ⟨part, rest⟩ := found
      by_cases hdot : rest.head? = some '.'
      · obtain ⟨behind, rfl⟩ := List.head?_eq_some_iff.mp hdot
        -- behind a dot both go on with the next component
        have hbehind := congrArg (Option.map (Component.ofText part :: ·)) (ih behind)
        refine Eq.trans ?_ (hbehind.trans ?_)
        · cases hread : readComponents? more behind with
          | none => simp [hread]
          | some found =>
            obtain ⟨components, rest⟩ := found
            cases htail : isTail rest <;> simp [hread, htail]
        · simp only [Option.bind_some, chain?_dot, Option.map_map, Function.comp_def,
            List.map_cons]
      · -- without one both stop, and ask for the tail
        simp only [Option.bind_eq_bind, Option.map_some, Option.bind_some, chain?_of_ne _ hdot]
        split
        · exact absurd rfl hdot
        · cases htail : isTail rest <;> simp [htail]

/-- A literal is read of the components behind its marker. -/
theorem read?_eq (cs : List Char) :
    read? cs = (written? 2 (dropMarker cs)).map fun parts => ofComponents (parts.map .ofText) := by
  have hread : read? cs = ((readComponents? 2 (dropMarker cs)).bind fun (components, rest) =>
      if isTail rest then some components else none).map ofComponents := by
    rw [read?]
    cases readComponents? 2 (dropMarker cs) with
    | none => rfl
    | some found =>
      obtain ⟨components, rest⟩ := found
      cases htail : isTail rest <;> simp [htail]
  rw [hread, readComponents?_eq, Option.map_map]
  rfl

/-- The preferred way through the components keeps what is written. -/
theorem head?_ways_components {longest : Nat} (atStart : Bool) {cs : List Char}
    (hlength : cs.length ≤ longest) :
    ((componentsPattern longest).ways ⟨atStart, cs, []⟩).head?.map Spot.groups =
      (written? 2 cs).map (numbered 1) := by
  have hleads : Leads (seq (dottedPattern 2) (seq (dottedPattern 3) (tailPattern longest)))
      longest 2 2 := (leads_tail longest 4).dotted.dotted
  exact hleads.component atStart [] hlength

/-- No component begins with a marker. -/
theorem written?_of_marker {c : Char} (hc : (c == 'v' || c == 'V') = true) (more : Nat)
    (cs : List Char) : written? more (c :: cs) = none := by
  have hopens : isWildcard c = false ∧ isDigit c = false := by
    rw [Bool.or_eq_true, beq_iff_eq, beq_iff_eq] at hc
    rcases hc with rfl | rfl <;> decide
  rw [written?, Component.split?, splitRun_cons_of_not_digit hopens.2, hopens.1]
  rfl

/-- **The preferred way keeps the components that are read.** -/
theorem find?_pattern (cs : List Char) :
    (pattern cs.length).find? cs = (written? 2 (dropMarker cs)).map (numbered 1) := by
  rw [pattern, find?_start]
  cases cs with
  | nil =>
    have hways (a : Pattern) : (seq markerPattern a).ways ⟨true, [], []⟩ = a.ways ⟨true, [], []⟩ := by
      simp [markerPattern]
    rw [hways, head?_ways_components true (Nat.le_refl _)]
    rfl
  | cons c cs =>
    cases hc : (c == 'v' || c == 'V') with
    | true =>
      have hways (a : Pattern) : (seq markerPattern a).ways ⟨true, c :: cs, []⟩ =
          a.ways ⟨false, cs, []⟩ ++ a.ways ⟨true, c :: cs, []⟩ := by
        simp [markerPattern, hc]
      -- with the marker taken, or with none taken, where no component begins
      have hlength : cs.length ≤ (c :: cs).length := Nat.le_succ _
      rw [hways, List.head?_append, Option.map_or, head?_ways_components false hlength,
        head?_ways_components true (Nat.le_refl _), written?_of_marker hc, dropMarker, if_pos hc]
      exact Option.or_none
    | false =>
      have hways (a : Pattern) : (seq markerPattern a).ways ⟨true, c :: cs, []⟩ =
          a.ways ⟨true, c :: cs, []⟩ := by
        simp [markerPattern, hc]
      rw [hways, head?_ways_components true (Nat.le_refl _), dropMarker, hc]
      rfl

/-- A literal is the numbers that its components spell, up to the first that spells none. -/
theorem ofComponents_ofText (parts : List (List Char)) :
    ofComponents (parts.map .ofText) =
      match parts[0]?.bind Version.component?, parts[1]?.bind Version.component?,
        parts[2]?.bind Version.component? with
      | none, _, _ => any
      | some a, none, _ => major a
      | some a, some b, none => minor a b
      | some a, some b, some c => patch a b c := by
  rcases parts with _ | ⟨a, _ | ⟨b, _ | ⟨c, parts⟩⟩⟩
  · rfl
  · cases ha : Version.component? a <;> simp [Component.ofText, ofComponents, ha]
  · cases ha : Version.component? a <;> cases hb : Version.component? b <;>
      simp [Component.ofText, ofComponents, ha, hb]
  · cases ha : Version.component? a <;> cases hb : Version.component? b <;>
      cases hc : Version.component? c <;> simp [Component.ofText, ofComponents, ha, hb, hc]

/-- **What the groups of the match spell is what one reading from left to right finds.** -/
theorem matched?_eq_read? (cs : List Char) : matched? cs = read? cs := by
  rw [matched?, find?_pattern, read?_eq]
  cases written? 2 (dropMarker cs) with
  | none => rfl
  | some parts =>
    have hlookup (i : Nat) : (numbered 1 parts).lookup (1 + i) = parts[i]? :=
      lookup_numbered 1 i parts
    rw [Option.map_some, Option.map_some, ofComponents_ofText, ← hlookup 0, ← hlookup 1,
      ← hlookup 2]
    rfl

/-- A second component that could also be a fourth number, and a qualifier with a dot and a digit. -/
example : matched? "v8.1X.3".toList = some (.minor 8 1) := by decide +kernel

end ReleaseMatrix.Literal
