/-
  Matching — the pattern of a version finds what the scan of the runs finds.

  A version stands in a text where this pattern matches first; a decimal digit of any script is \d:

      (?:^|[^\d])  (\d{1,16})  (?:\.(\d{1,16}))?  (?:\.(\d{1,16}))?  (?:$|[^\d])
        opening     major           minor              patch          closing

  A component that stops within a run of digits lets nothing go on behind it, neither a dot nor the
  closing.  So of its up to 16 ways at most one counts, a dotted component that fits is kept, and a
  scan that never comes back finds the same groups.

      in  1.2345678901234567890       the minor has 19 digits, the closing is its dot: 1

  1. **The pattern** — `pattern`, and `matched?`, the version that its groups spell.
  2. **Components** — `ways_component`, `ways_dotted`: the ways that let a match go on.
  3. **What follows the first component** — `Follows`, by induction on the number of dotted ones.
  4. **Searching** — `findFrom_eq`, `find?_pattern` and `matched?_eq_extract?`.
-/
import ReleaseMatrix.Proofs.Text.Pattern
import ReleaseMatrix.Proofs.Version.Runs

namespace ReleaseMatrix.Version

open Text Pattern

/-! ## The pattern -/

/-- A component: 1 to 16 digits, kept under its number. -/
def componentPattern (number : Nat) : Pattern := group number (oneUpTo isDigit 16)

/-- A dot and a component, or nothing. -/
def dottedPattern (number : Nat) : Pattern :=
  orEmpty (seq (one (· == '.')) (componentPattern number))

/-- The start of the text, or a character that is no digit. -/
def openingPattern : Pattern := either start (one fun c => !isDigit c)

/-- The end of the text, or a character that is no digit. -/
def closingPattern : Pattern := either finish (one fun c => !isDigit c)

/-- Three components, of which the second and the third may be missing, up to what is no digit. -/
def componentsPattern : Pattern :=
  seq (componentPattern 1) (seq (dottedPattern 2) (seq (dottedPattern 3) closingPattern))

/-- A version in a text. -/
def pattern : Pattern := seq openingPattern componentsPattern

/-- The version that the groups of the first match spell.  A group that has not matched stands for
zero, and one that spells no number spoils the version. -/
def matched? (text : String) : Option Version := do
  let groups ← pattern.find? text.toList
  let number (group : Nat) : Option UInt64 := ((groups.lookup group).map component?).getD (some 0)
  return ⟨← number 1, ← number 2, ← number 3⟩

/-! ## Components -/

/-- No match goes on where a digit follows. -/
def RefusesDigits (go : Spot → List Spot) : Prop :=
  ∀ (atStart : Bool) (c : Char) (rest : List Char) (groups : List (Nat × List Char)),
    isDigit c = true → go ⟨atStart, c :: rest, groups⟩ = []

variable {go : Spot → List Spot}

/-- Of a component only the whole run lets a match go on, and only if it is short. -/
theorem ways_component (hgo : RefusesDigits go) (number : Nat) (s : Spot) :
    ((componentPattern number).ways s).flatMap go =
      if isShort (splitRun s.ahead).1 then
        go ⟨false, (splitRun s.ahead).2, s.groups ++ [(number, (splitRun s.ahead).1)]⟩
      else [] := by
  have hrefuses : Refuses isDigit go := hgo false
  rw [componentPattern, ways_group_oneUpTo hrefuses number (by omega)]
  simp only [isShort_iff, maxDigits, splitRun]

/-- A dotted component is taken, or it is passed by and the match goes on without it. -/
theorem ways_dotted (hgo : RefusesDigits go) (number : Nat) (s : Spot) :
    ((dottedPattern number).ways s).flatMap go =
      (match dottedRun s.ahead with
        | some (run, behind) => go ⟨false, behind, s.groups ++ [(number, run)]⟩
        | none => []) ++ go s := by
  obtain ⟨atStart, ahead, groups⟩ := s
  rw [dottedPattern, ways_orEmpty, List.flatMap_append, List.flatMap_singleton]
  congr 1
  cases ahead with
  | nil => rfl
  | cons c rest =>
    by_cases hdot : c = '.'
    · subst hdot
      -- behind the dot it is a component like any other
      have hone : (one (· == '.')).ways ⟨atStart, '.' :: rest, groups⟩ =
          [⟨false, rest, groups⟩] := rfl
      rw [ways_seq, hone, List.flatMap_singleton, ways_component hgo, dottedRun]
      cases isShort (splitRun rest).1 <;> rfl
    · rw [dottedRun_cons_of_ne hdot]
      simp [hdot]

/-! ## What follows the first component -/

/-- Runs as groups, numbered from a number on. -/
def numbered : Nat → List (List Char) → List (Nat × List Char)
  | _, [] => []
  | number, run :: runs => (number, run) :: numbered (number + 1) runs

/-- A run is found under its number. -/
theorem lookup_numbered (number i : Nat) (runs : List (List Char)) :
    (numbered number runs).lookup (number + i) = runs[i]? := by
  induction runs generalizing number i with
  | nil => rfl
  | cons run runs ih =>
    cases i with
    | zero => exact List.lookup_cons_self
    | succ i =>
      have hother : (number + (i + 1) == number) = false := by
        rw [beq_eq_false_iff_ne]
        omega
      rw [numbered, List.lookup_cons, hother, List.getElem?_cons_succ, ← ih (number + 1) i,
        Nat.add_right_comm number 1 i]
      rfl

/-- Behind a component the pattern matches: its preferred way keeps the dotted runs that follow, up
to `count`, numbered from `number` on. -/
structure Follows (a : Pattern) (number count : Nat) : Prop where
  refuses : RefusesDigits a.ways
  prefers : ∀ s : Spot, (∀ c ∈ s.ahead.head?, isDigit c = false) →
    (a.ways s).head?.map Spot.groups = some (s.groups ++ numbered number (dottedRuns count s.ahead))

/-- Nothing follows the last component but the closing. -/
theorem follows_closing (number : Nat) : Follows closingPattern number 0 := by
  refine ⟨fun atStart c rest groups hc => ?_, fun s hahead => ?_⟩
  · simp [closingPattern, ways, hc]
  · obtain ⟨atStart, ahead, groups⟩ := s
    cases ahead with
    | nil => simp [closingPattern, ways, dottedRuns, numbered]
    | cons c rest =>
      have hc : isDigit c = false := hahead c rfl
      simp [closingPattern, ways, hc, dottedRuns, numbered]

/-- In front of what follows there may be one more dotted component. -/
theorem Follows.dotted {a : Pattern} {number count : Nat} (h : Follows a (number + 1) count) :
    Follows (seq (dottedPattern number) a) number (count + 1) := by
  refine ⟨fun atStart c rest groups hc => ?_, fun s hahead => ?_⟩
  · -- a digit is no dot, so the dotted component is passed by and the rest refuses the digit
    have hdot : c ≠ '.' := by
      rintro rfl
      cases hc
    rw [ways_seq, ways_dotted h.refuses, dottedRun_cons_of_ne hdot,
      h.refuses atStart c rest groups hc]
    rfl
  · rw [ways_seq, ways_dotted h.refuses, dottedRuns]
    cases hdotted : dottedRun s.ahead with
    | none =>
      -- no dotted run here, so none of the others is reached either
      have hnone : dottedRuns count s.ahead = [] := by
        cases count with
        | zero => rfl
        | succ count => rw [dottedRuns, hdotted]
      rw [List.nil_append, h.prefers s hahead, hnone]
      rfl
    | some found =>
      obtain ⟨run, behind⟩ := found
      -- the run ends here, so the rest may go on behind it
      have hbehind : ∀ c ∈ behind.head?, isDigit c = false :=
        (dottedRun_eq_some_iff.mp hdotted).isRun.closes
      rw [List.head?_append, Option.map_or, h.prefers _ hbehind]
      simp [numbered]

/-! ## Searching -/

/-- The groups that a short run and the dotted ones behind it make up. -/
def groupsFrom (found : List Char × List Char) : List (Nat × List Char) :=
  numbered 1 (found.1 :: dottedRuns 2 found.2)

/-- What is kept where the components may begin: groups, if a short run stands there. -/
def heldAt (cs : List Char) : Option (List (Nat × List Char)) :=
  if isShort (splitRun cs).1 then some (groupsFrom (splitRun cs)) else none

/-- No version begins where no digit stands. -/
theorem heldAt_of_not_digit {cs : List Char} (h : ∀ c ∈ cs.head?, isDigit c = false) :
    heldAt cs = none := by
  cases cs with
  | nil => rfl
  | cons c cs =>
    rw [heldAt, splitRun_cons_of_not_digit (h c rfl)]
    rfl

/-- The preferred way of the components holds the runs that are there. -/
theorem head?_ways_components (atStart : Bool) (cs : List Char) :
    (componentsPattern.ways ⟨atStart, cs, []⟩).head?.map Spot.groups = heldAt cs := by
  have hfollows : Follows (seq (dottedPattern 2) (seq (dottedPattern 3) closingPattern)) 2 2 :=
    (follows_closing 4).dotted.dotted
  rw [componentsPattern, ways_seq, ways_component hfollows.refuses, heldAt]
  split
  case isTrue =>
    rw [hfollows.prefers _ (isDigit_behind_run cs)]
    rfl
  case isFalse => rfl

/-- What is kept behind a character: the components begin there unless it is a digit. -/
def heldBehind : List Char → Option (List (Nat × List Char))
  | [] => none
  | c :: rest => if isDigit c then none else heldAt rest

/-- At a spot the pattern begins with the components, if nothing stands before, or else with one
character more. -/
theorem head?_ways_pattern (atStart : Bool) (cs : List Char) :
    (pattern.ways ⟨atStart, cs, []⟩).head?.map Spot.groups =
      (if atStart then heldAt cs else none).or (heldBehind cs) := by
  -- the opening is the start, or else it takes a character
  have hopening : pattern.ways ⟨atStart, cs, []⟩ =
      (if atStart then componentsPattern.ways ⟨atStart, cs, []⟩ else []) ++
        ((one fun c => !isDigit c).ways ⟨atStart, cs, []⟩).flatMap componentsPattern.ways := by
    rw [pattern, ways_seq, openingPattern, ways_either, List.flatMap_append]
    cases atStart <;> simp [ways]
  have hbehind : (((one fun c => !isDigit c).ways ⟨atStart, cs, []⟩).flatMap
      componentsPattern.ways).head?.map Spot.groups = heldBehind cs := by
    cases cs with
    | nil => rfl
    | cons c rest => cases hc : isDigit c <;> simp [hc, heldBehind, head?_ways_components]
  rw [hopening, List.head?_append, Option.map_or, hbehind]
  cases atStart with
  | true => rw [if_pos rfl, if_pos rfl, head?_ways_components]
  | false => rfl

theorem findFrom_nil (atStart : Bool) : pattern.findFrom atStart [] = none := by
  rw [findFrom, head?_ways_pattern, heldAt_of_not_digit (by simp)]
  cases atStart <;> rfl

theorem findFrom_cons (atStart : Bool) (c : Char) (rest : List Char) :
    pattern.findFrom atStart (c :: rest) =
      ((if atStart then heldAt (c :: rest) else none).or (heldBehind (c :: rest))).or
        (pattern.findFrom false rest) := by
  rw [findFrom, head?_ways_pattern]

/-- No match begins with a digit of the text but its first. -/
theorem findFrom_dropWhile (cs : List Char) :
    pattern.findFrom false cs = pattern.findFrom false (cs.dropWhile isDigit) := by
  induction cs with
  | nil => rfl
  | cons c cs ih =>
    cases hc : isDigit c with
    | true =>
      rw [List.dropWhile_cons_of_pos hc, ← ih, findFrom_cons, heldBehind, if_pos hc]
      rfl
    | false => rw [List.dropWhile_cons_of_neg (by simp [hc])]

/-- **The first match begins with the leftmost short run**, by induction on the scan: behind a
character that is no digit the match begins as the scan does, and an overlong run is passed by. -/
theorem findFrom_eq (cs : List Char) :
    ((∀ c ∈ cs.head?, isDigit c = false) →
      pattern.findFrom false cs = (firstRun cs).map groupsFrom) ∧
    ∀ atStart c, isDigit c = false →
      pattern.findFrom atStart (c :: cs) = (firstRun cs).map groupsFrom := by
  -- a character that is no digit can be the opening, but it is no component
  have hbegin (atStart : Bool) {c : Char} (hc : isDigit c = false) (cs : List Char) :
      pattern.findFrom atStart (c :: cs) = (heldAt cs).or (pattern.findFrom false cs) := by
    have hnone : heldAt (c :: cs) = none := heldAt_of_not_digit (by simpa using hc)
    rw [findFrom_cons, hnone, heldBehind, hc]
    cases atStart <;> rfl
  fun_induction firstRun cs with
  | case1 =>
    refine ⟨fun _ => findFrom_nil false, fun atStart c hc => ?_⟩
    rw [hbegin atStart hc, findFrom_nil]
    rfl
  | case2 d cs hdigit split hshort =>
    refine ⟨fun h => absurd (h d rfl) (by simp [hdigit]), fun atStart c hc => ?_⟩
    rw [hbegin atStart hc, heldAt, if_pos hshort]
    rfl
  | case3 d cs hdigit split hlong ih =>
    -- the run is too long, so the search goes on where it ends
    refine ⟨fun h => absurd (h d rfl) (by simp [hdigit]), fun atStart c hc => ?_⟩
    rw [hbegin atStart hc, heldAt, if_neg hlong, Option.none_or, findFrom_dropWhile,
      List.dropWhile_cons_of_pos hdigit]
    exact ih.1 (isDigit_behind_run cs)
  | case4 d cs hother ih =>
    have hd : isDigit d = false := by simpa using hother
    refine ⟨fun _ => ih.2 false d hd, fun atStart c hc => ?_⟩
    rw [hbegin atStart hc, heldAt_of_not_digit (by simpa using hd), ih.2 false d hd]
    rfl

/-- **Searching a text** finds the runs that the scan picks, numbered from 1. -/
theorem find?_pattern (cs : List Char) : pattern.find? cs = (firstRun cs).map groupsFrom := by
  cases cs with
  | nil =>
    rw [find?, findFrom_nil, firstRun]
    rfl
  | cons c cs =>
    cases hc : isDigit c with
    | false =>
      have hother : firstRun (c :: cs) = firstRun cs := by
        rw [firstRun, if_neg (by simp [hc])]
      rw [hother]
      exact (findFrom_eq cs).2 true c hc
    | true =>
      have hfirst : firstRun (c :: cs) =
          if isShort (splitRun (c :: cs)).1 then some (splitRun (c :: cs))
          else firstRun (cs.dropWhile isDigit) := by
        rw [firstRun, if_pos hc]
      rw [find?, findFrom_cons, if_pos rfl, heldBehind, if_pos hc, Option.or_none, heldAt, hfirst]
      split
      case isTrue => rfl
      case isFalse =>
        rw [Option.none_or, findFrom_dropWhile]
        exact (findFrom_eq _).1 (isDigit_behind_run cs)

/-- **The first match spells the version that the scan extracts.** -/
theorem matched?_eq_extract? (text : String) : matched? text = extract? text := by
  rw [matched?, find?_pattern, extract?, componentRuns_eq]
  cases firstRun text.toList with
  | none => rfl
  | some found =>
    obtain ⟨major, behind⟩ := found
    -- a group that is not there stands for zero, and so does a run
    have hlookup (i : Nat) :
        (groupsFrom (major, behind)).lookup (1 + i) = (major :: dottedRuns 2 behind)[i]? :=
      lookup_numbered 1 i _
    rw [Option.map_some, Option.bind_eq_bind, Option.bind_some]
    dsimp only
    rw [hlookup 0, hlookup 1, hlookup 2]
    rcases dottedRuns_two behind with hmore | ⟨minor, hmore⟩ | ⟨minor, patch, hmore⟩
    · rw [hmore]
      cases hmajor : component? major <;> simp [hmajor]
    · rw [hmore]
      cases hmajor : component? major <;> cases hminor : component? minor <;>
        simp [hmajor, hminor]
    · rw [hmore]
      cases hmajor : component? major <;> cases hminor : component? minor <;>
        cases hpatch : component? patch <;> simp [hmajor, hminor, hpatch]

end ReleaseMatrix.Version
