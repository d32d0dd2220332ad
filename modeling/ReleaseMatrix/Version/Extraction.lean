/-
  Versions inside free text: `php-8.2.1RC1` holds 8.2.1, and `8` holds 8.0.0.

  The rule in terms of *runs*, the maximal blocks of decimal digits:
  1. the major is the leftmost run of at most 16 digits — longer runs are passed over;
  2. a dot and another such run right behind it give the minor, and again the patch;
  3. what is missing is 0, and so is what follows a missing part;
  4. a chosen run that is not ASCII throughout spells no number, and then there is no version.

  Sixteen digits stay below 2^64, so the numbers fit into words.
-/
import ReleaseMatrix.Version

namespace ReleaseMatrix.Version

open Text

/-- The most digits that a component may have. -/
def maxDigits : Nat := 16

/-- A run that can be a component: some digits, at most 16. -/
def isShort (run : List Char) : Bool :=
  0 < run.length && run.length ≤ maxDigits

theorem isShort_iff {run : List Char} :
    isShort run = true ↔ 0 < run.length ∧ run.length ≤ maxDigits := by
  rw [isShort, Bool.and_eq_true, decide_eq_true_eq, decide_eq_true_eq]

/-! ## Finding the runs -/

/-- The leftmost run that can be a component, and what follows it. -/
def firstRun (cs : List Char) : Option (List Char × List Char) :=
  match cs with
  | [] => none
  | c :: rest =>
    if isDigit c then
      let run := splitRun (c :: rest)
      -- an overlong run is passed over as a whole
      if isShort run.1 then some run else firstRun ((rest.dropWhile isDigit))
    else firstRun rest
termination_by cs.length
decreasing_by
  · have h := (List.dropWhile_sublist (l := rest) isDigit).length_le
    simp only [List.length_cons]; omega
  · simp only [List.length_cons]; omega

/-- The run behind a dot that the text starts with, if it can be a component. -/
def dottedRun : List Char → Option (List Char × List Char)
  | '.' :: rest => if isShort (splitRun rest).1 then some (splitRun rest) else none
  | _ => none

/-- The one, two or three runs that make up the first version of a text. -/
def componentRuns (cs : List Char) : List (List Char) :=
  match firstRun cs with
  | none => []
  | some (major, rest) =>
    match dottedRun rest with
    | none => [major]
    | some (minor, rest) =>
      match dottedRun rest with
      | none => [major, minor]
      | some (patch, _) => [major, minor, patch]

/-! ## Reading them -/

/-- The word that a run of ASCII digits spells. -/
def component? (run : List Char) : Option UInt64 :=
  (value? run).map UInt64.ofNat

/-- The version that a text holds, if any. -/
def extract? (text : String) : Option Version :=
  match (componentRuns text.toList).mapM component? with
  | some [major] => some ⟨major, 0, 0⟩
  | some [major, minor] => some ⟨major, minor, 0⟩
  | some [major, minor, patch] => some ⟨major, minor, patch⟩
  | _ => none

end ReleaseMatrix.Version
