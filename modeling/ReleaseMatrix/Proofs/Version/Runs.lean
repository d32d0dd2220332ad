/-
  Runs — which digits of a text make up its version.

  A run is a maximal block of digits, and a short one has at most 16.  The version is made of the
  leftmost short run and, as long as a dot and a short run follow at once, of up to two runs more:

      php-8.2.1RC1                    8 | 2 | 1
      20240101123456789.7             7              the first run has 17 digits
      8.20240101123456789.7           8              so has the second, and the third stands alone
      8..2                            8

  All of this is said of positions in the text, without a scan.

  1. **Short runs** — `ShortRun`, a run and where it stands.
  2. **Skipping** — `Skips`: a character that is no digit, and a run that is too long.
  3. **The leftmost** — `firstRun_eq_some_iff`.
  4. **The others** — `dottedRun_eq_some_iff`, `dotted_iff`.
  5. **All together** — `chosen_iff`.
-/
import Mathlib.Data.List.Basic
import Mathlib.Data.Nat.Find
import ReleaseMatrix.Proofs.Text.Digit
import ReleaseMatrix.Version.Extraction

namespace ReleaseMatrix.Version

open Text

/-! ## Short runs -/

/-- A block of digits that stands between `before` and `behind` and goes on into neither. -/
structure IsRun (before run behind : List Char) : Prop where
  nonempty : run ≠ []
  digits : ∀ c ∈ run, isDigit c = true
  opens : ∀ c ∈ before.getLast?, isDigit c = false
  closes : ∀ c ∈ behind.head?, isDigit c = false

/-- A run of at most 16 digits, and where in a text it stands. -/
structure ShortRun (cs before run behind : List Char) : Prop where
  text : cs = before ++ run ++ behind
  isRun : IsRun before run behind
  short : run.length ≤ 16

variable {cs before run behind : List Char}

theorem IsRun.splitRun_eq (h : IsRun before run behind) :
    splitRun (run ++ behind) = (run, behind) :=
  splitRun_append_of_digits h.digits h.closes

theorem IsRun.isShort_iff (h : IsRun before run behind) : isShort run = true ↔ run.length ≤ 16 := by
  rw [Version.isShort_iff]
  exact and_iff_right (List.length_pos_iff.mpr h.nonempty)

theorem ShortRun.isShort (h : ShortRun cs before run behind) : isShort run = true :=
  h.isRun.isShort_iff.mpr h.short

/-- What a text begins with is a run, if it is there and no digit stands before. -/
theorem isRun_splitRun (hopens : ∀ c ∈ before.getLast?, isDigit c = false)
    (hne : (splitRun cs).1 ≠ []) : IsRun before (splitRun cs).1 (splitRun cs).2 :=
  ⟨hne, fun _ => isDigit_of_mem_run, hopens, isDigit_behind_run cs⟩

/-- A digit that a text begins with begins a run. -/
theorem isRun_of_digit {c : Char} (hc : isDigit c = true) (cs : List Char) :
    IsRun [] (splitRun (c :: cs)).1 (splitRun (c :: cs)).2 :=
  isRun_splitRun (by simp) (by simp [splitRun_cons_of_digit hc])

/-- A run has a digit to begin with. -/
theorem IsRun.exists_cons (h : IsRun before run behind) :
    ∃ c rest, run = c :: rest ∧ isDigit c = true := by
  obtain ⟨c, rest, rfl⟩ := List.exists_cons_of_ne_nil h.nonempty
  exact ⟨c, rest, rfl, h.digits c List.mem_cons_self⟩

/-! ## Skipping -/

/-- A scan may skip the beginning `skipped` of a text: its short runs are those of the rest. -/
def Skips (skipped cs : List Char) : Prop :=
  ∀ before run behind, ShortRun (skipped ++ cs) before run behind ↔
    ∃ before', before = skipped ++ before' ∧ ShortRun cs before' run behind

/-- Something in front changes nothing for the short runs of a text, if no run goes on from it into
the text. -/
theorem shortRun_append {skipped : List Char}
    (hcut : (∀ c ∈ skipped.getLast?, isDigit c = false) ∨ ∀ c ∈ cs.head?, isDigit c = false) :
    ShortRun (skipped ++ cs) (skipped ++ before) run behind ↔ ShortRun cs before run behind := by
  have htext : skipped ++ cs = skipped ++ before ++ run ++ behind ↔
      cs = before ++ run ++ behind := by
    rw [List.append_assoc, List.append_assoc, List.append_assoc, List.append_cancel_left_eq]
  constructor
  · rintro ⟨h, hrun, hshort⟩
    refine ⟨htext.mp h, ⟨hrun.nonempty, hrun.digits, fun c hc => ?_, hrun.closes⟩, hshort⟩
    refine hrun.opens c ?_
    rw [List.getLast?_append, Option.mem_def.mp hc]
    rfl
  · rintro ⟨h, hrun, hshort⟩
    refine ⟨htext.mpr h, ⟨hrun.nonempty, hrun.digits, fun c hc => ?_, hrun.closes⟩, hshort⟩
    cases before with
    | nil =>
      rcases hcut with hlast | hhead
      · exact hlast c (by simpa using hc)
      · -- the run begins the text, so the text begins with a digit
        obtain ⟨d, rest, rfl, hd⟩ := hrun.exists_cons
        have := hhead d (by simp [h])
        rw [hd] at this
        cases this
    | cons b before => exact hrun.opens c (by simpa [List.getLast?_append] using hc)

/-- A text may be scanned from where no short run begins before, and none goes on. -/
theorem skips_of_prefix {skipped : List Char}
    (hcut : (∀ c ∈ skipped.getLast?, isDigit c = false) ∨ ∀ c ∈ cs.head?, isDigit c = false)
    (hbegins : ∀ before run behind, ShortRun (skipped ++ cs) before run behind →
      skipped <+: before) : Skips skipped cs := by
  intro before run behind
  constructor
  · intro h
    obtain ⟨before', rfl⟩ := hbegins before run behind h
    exact ⟨before', rfl, (shortRun_append hcut).mp h⟩
  · rintro ⟨before', rfl, h⟩
    exact (shortRun_append hcut).mpr h

/-- A character that is no digit is skipped. -/
theorem skips_of_not_digit {c : Char} (hc : isDigit c = false) (cs : List Char) :
    Skips [c] cs := by
  refine skips_of_prefix (.inl fun d hd => ?_) fun before run behind h => ?_
  · obtain rfl : c = d := Option.some.inj hd
    exact hc
  · cases before with
    | nil =>
      obtain ⟨d, rest, rfl, hd⟩ := h.isRun.exists_cons
      obtain rfl : c = d := (List.cons.inj h.text).1
      rw [hc] at hd
      cases hd
    | cons b before =>
      obtain rfl : c = b := (List.cons.inj h.text).1
      exact ⟨before, rfl⟩

/-- A run that is too long is skipped: no short run begins before it, and one that began within it
would have a digit in front. -/
theorem skips_of_long (hlong : 16 < (splitRun cs).1.length) :
    Skips (splitRun cs).1 (splitRun cs).2 := by
  refine skips_of_prefix (.inr (isDigit_behind_run cs)) fun before run behind h => ?_
  have htext : (splitRun cs).1 ++ (splitRun cs).2 = before ++ (run ++ behind) := by
    rw [h.text, List.append_assoc]
  have hends : before <+: (splitRun cs).1 ∨ (splitRun cs).1 <+: before :=
    List.prefix_or_prefix_of_prefix ⟨run ++ behind, htext.symm⟩ (List.prefix_append _ _)
  rcases hends with hbefore | hrun
  · rcases List.eq_nil_or_concat before with rfl | ⟨front, d, rfl⟩
    · -- it is this very run, and not short
      have hsame : splitRun cs = (run, behind) := by
        rw [← h.isRun.splitRun_eq, ← splitRun_append cs, htext]
        rfl
      rw [hsame] at hlong
      exact absurd h.short (Nat.not_le.mpr hlong)
    · have hd : isDigit d = true := isDigit_of_mem_run (hbefore.subset (by simp))
      have := h.isRun.opens d (by simp)
      rw [hd] at this
      cases this
  · exact hrun

/-! ## The leftmost -/

/-- A short run that begins no later than any other. -/
structure FirstRun (cs before run behind : List Char) : Prop extends
    ShortRun cs before run behind where
  leftmost : ∀ before' run' behind', ShortRun cs before' run' behind' →
    before.length ≤ before'.length

/-- What is skipped does not matter for the leftmost short run. -/
theorem Skips.firstRun_iff {skipped : List Char} (h : Skips skipped cs) :
    (∃ before, FirstRun (skipped ++ cs) before run behind) ↔
      ∃ before, FirstRun cs before run behind := by
  constructor
  · rintro ⟨before, hrun, hleftmost⟩
    obtain ⟨before, rfl, hshort⟩ := (h before run behind).mp hrun
    refine ⟨before, hshort, fun before' run' behind' hother => ?_⟩
    have := hleftmost _ run' behind' ((h _ run' behind').mpr ⟨before', rfl, hother⟩)
    simpa using this
  · rintro ⟨before, hrun, hleftmost⟩
    refine ⟨skipped ++ before, (h _ run behind).mpr ⟨before, rfl, hrun⟩, ?_⟩
    intro before' run' behind' hother
    obtain ⟨before', rfl, hshort⟩ := (h before' run' behind').mp hother
    have := hleftmost before' run' behind' hshort
    simpa using this

/-- **The scan finds the leftmost short run.** -/
theorem firstRun_eq_some_iff :
    firstRun cs = some (run, behind) ↔ ∃ before, FirstRun cs before run behind := by
  fun_induction firstRun cs with
  | case1 =>
    refine iff_of_false (by simp) ?_
    rintro ⟨before, h⟩
    -- an empty text has no run
    have hnil : before ++ run = [] := (List.append_eq_nil_iff.mp h.text.symm).1
    exact h.isRun.nonempty (List.append_eq_nil_iff.mp hnil).2
  | case2 c cs hdigit split hshort =>
    have hrun : IsRun [] split.1 split.2 := isRun_of_digit hdigit cs
    -- nothing begins further left than the text itself
    have hfirst : ShortRun (c :: cs) [] split.1 split.2 :=
      ⟨(splitRun_append (c :: cs)).symm, hrun, hrun.isShort_iff.mp hshort⟩
    rw [Option.some.injEq]
    constructor
    · intro hsplit
      rw [hsplit] at hfirst
      exact ⟨[], hfirst, fun _ _ _ _ => Nat.zero_le _⟩
    · rintro ⟨before, h⟩
      obtain rfl : before = [] :=
        List.length_eq_zero_iff.mp (Nat.le_zero.mp (h.leftmost [] _ _ hfirst))
      calc splitRun (c :: cs) = splitRun (run ++ behind) := by rw [h.text]; rfl
        _ = (run, behind) := h.isRun.splitRun_eq
  | case3 c cs hdigit split hlong ih =>
    have hrun : IsRun [] split.1 split.2 := isRun_of_digit hdigit cs
    have hbehind : split.2 = cs.dropWhile isDigit := List.dropWhile_cons_of_pos hdigit
    -- the run is too long, and so is passed over whole
    have hskips : Skips split.1 split.2 :=
      skips_of_long (Nat.lt_of_not_le fun hle => hlong (hrun.isShort_iff.mpr hle))
    have htext : split.1 ++ split.2 = c :: cs := splitRun_append (c :: cs)
    rw [ih, ← hbehind, ← hskips.firstRun_iff, htext]
  | case4 c cs hother ih =>
    rw [ih, ← (skips_of_not_digit (by simpa using hother) cs).firstRun_iff]
    rfl

/-- It finds nothing only where no short run is. -/
theorem firstRun_eq_none_iff :
    firstRun cs = none ↔ ∀ before run behind, ¬ ShortRun cs before run behind := by
  constructor
  · intro hnone before run behind h
    -- a leftmost one would have been found
    have hsome : ∃ n before run behind, ShortRun cs before run behind ∧ before.length = n :=
      ⟨before.length, before, run, behind, h, rfl⟩
    classical
    obtain ⟨first, run, behind, hfirst, hlength⟩ := Nat.find_spec hsome
    have hfound : firstRun cs = some (run, behind) := firstRun_eq_some_iff.mpr
      ⟨first, hfirst, fun before' run' behind' h' =>
        hlength ▸ Nat.find_min' hsome ⟨before', run', behind', h', rfl⟩⟩
    rw [hnone] at hfound
    cases hfound
  · intro hnone
    rw [Option.eq_none_iff_forall_not_mem]
    rintro ⟨run, behind⟩ hfound
    obtain ⟨before, hfirst⟩ := firstRun_eq_some_iff.mp hfound
    exact hnone before run behind hfirst.toShortRun

/-! ## The others -/

/-- A dotted run begins with its dot. -/
theorem dottedRun_cons_of_ne {c : Char} (h : c ≠ '.') (rest : List Char) :
    dottedRun (c :: rest) = none := by
  unfold dottedRun
  split
  case h_1 hdot => exact absurd (List.cons.inj hdot).1 h
  case h_2 => rfl

/-- Where no dot is, there is no dotted run. -/
theorem dottedRun_of_ne {cs : List Char} (h : cs.head? ≠ some '.') : dottedRun cs = none := by
  cases cs with
  | nil => rfl
  | cons c cs => exact dottedRun_cons_of_ne (fun hc => h (congrArg some hc)) cs

/-- **A dotted run** is a short run behind a dot that the text begins with. -/
theorem dottedRun_eq_some_iff :
    dottedRun cs = some (run, behind) ↔ ShortRun cs ['.'] run behind := by
  have hdot : isDigit '.' = false := by decide
  constructor
  · intro h
    unfold dottedRun at h
    split at h
    case h_1 rest =>
      split at h
      case isTrue hshort =>
        have hne : (splitRun rest).1 ≠ [] := by
          intro hnil
          rw [hnil] at hshort
          cases hshort
        have hrun : IsRun ['.'] (splitRun rest).1 (splitRun rest).2 :=
          isRun_splitRun (by simpa using hdot) hne
        obtain rfl : (splitRun rest).1 = run := congrArg Prod.fst (Option.some.inj h)
        obtain rfl : (splitRun rest).2 = behind := congrArg Prod.snd (Option.some.inj h)
        refine ⟨?_, hrun, hrun.isShort_iff.mp hshort⟩
        rw [List.append_assoc, splitRun_append]
        rfl
      case isFalse => cases h
    case h_2 => cases h
  · rintro ⟨rfl, hrun, hshort⟩
    have hsplit := hrun.splitRun_eq
    simp only [List.cons_append, List.nil_append, dottedRun, hsplit, hrun.isShort_iff.mpr hshort,
      if_true]

/-- The runs, up to so many, that follow one another behind a dot each. -/
inductive Dotted : Nat → List Char → List (List Char) → Prop
  /-- There are enough of them. -/
  | enough {cs : List Char} : Dotted 0 cs []
  /-- No dot follows, or no short run behind it. -/
  | missing {n : Nat} {cs : List Char} (h : ∀ run behind, ¬ ShortRun cs ['.'] run behind) :
      Dotted (n + 1) cs []
  /-- One follows, and then the others. -/
  | next {n : Nat} {cs run behind : List Char} {runs : List (List Char)}
      (h : ShortRun cs ['.'] run behind) (hmore : Dotted n behind runs) :
      Dotted (n + 1) cs (run :: runs)

/-- The dotted runs in turn, up to so many. -/
def dottedRuns : Nat → List Char → List (List Char)
  | 0, _ => []
  | n + 1, cs =>
    match dottedRun cs with
    | none => []
    | some (run, behind) => run :: dottedRuns n behind

/-- **The scan takes the dotted runs that follow**, up to so many. -/
theorem dotted_iff {n : Nat} {runs : List (List Char)} :
    Dotted n cs runs ↔ runs = dottedRuns n cs := by
  constructor
  · intro h
    induction h with
    | enough => rfl
    | @missing n cs h =>
      have hnone : dottedRun cs = none := by
        rw [Option.eq_none_iff_forall_not_mem]
        exact fun found hfound => h found.1 found.2 (dottedRun_eq_some_iff.mp hfound)
      rw [dottedRuns, hnone]
    | next h _ ih => rw [dottedRuns, dottedRun_eq_some_iff.mpr h, ih]
  · rintro rfl
    induction n generalizing cs with
    | zero => exact .enough
    | succ n ih =>
      rw [dottedRuns]
      split
      case h_1 hnone =>
        refine .missing fun run behind h => ?_
        rw [dottedRun_eq_some_iff.mpr h] at hnone
        cases hnone
      case h_2 run behind hsome => exact .next (dottedRun_eq_some_iff.mp hsome) ih

/-- Of up to two there may be none, one or two. -/
theorem dottedRuns_two (cs : List Char) :
    dottedRuns 2 cs = [] ∨ (∃ minor, dottedRuns 2 cs = [minor]) ∨
      ∃ minor patch, dottedRuns 2 cs = [minor, patch] := by
  simp only [dottedRuns]
  cases dottedRun cs with
  | none => exact .inl rfl
  | some second =>
    dsimp only
    cases dottedRun second.2 with
    | none => exact .inr (.inl ⟨_, rfl⟩)
    | some third => exact .inr (.inr ⟨_, _, rfl⟩)

/-! ## All together -/

/-- The runs that make up the version of a text: the leftmost short one, and up to two dotted ones
that follow it. -/
inductive Chosen (cs : List Char) : List (List Char) → Prop
  | none (h : ∀ before run behind, ¬ ShortRun cs before run behind) : Chosen cs []
  | some {before run behind : List Char} {more : List (List Char)}
      (hfirst : FirstRun cs before run behind) (hmore : Dotted 2 behind more) :
      Chosen cs (run :: more)

/-- What is scanned is the first run, and the dotted ones behind it. -/
theorem componentRuns_eq (cs : List Char) :
    componentRuns cs =
      match firstRun cs with
      | none => []
      | some (run, behind) => run :: dottedRuns 2 behind := by
  unfold componentRuns
  cases firstRun cs with
  | none => rfl
  | some first =>
    obtain ⟨run, behind⟩ := first
    simp only [dottedRuns]
    cases dottedRun behind with
    | none => rfl
    | some second =>
      obtain ⟨run', behind'⟩ := second
      dsimp only
      cases dottedRun behind' <;> rfl

/-- **The runs that a scan picks are the ones that make up the version.** -/
theorem chosen_iff {runs : List (List Char)} : Chosen cs runs ↔ runs = componentRuns cs := by
  rw [componentRuns_eq]
  constructor
  · intro h
    cases h with
    | none h => rw [firstRun_eq_none_iff.mpr h]
    | some hfirst hmore =>
      rw [firstRun_eq_some_iff.mpr ⟨_, hfirst⟩, dotted_iff.mp hmore]
  · rintro rfl
    cases hfirst : firstRun cs with
    | none => exact .none (firstRun_eq_none_iff.mp hfirst)
    | some first =>
      obtain ⟨before, hrun⟩ := firstRun_eq_some_iff.mp hfirst
      exact .some hrun (dotted_iff.mpr rfl)

/-- Dotted runs are short, and not too many. -/
theorem Dotted.isShort {n : Nat} {runs : List (List Char)} (h : Dotted n cs runs) :
    (∀ run ∈ runs, isShort run = true) ∧ runs.length ≤ n := by
  induction h with
  | enough => exact ⟨by simp, Nat.le_refl 0⟩
  | missing => exact ⟨by simp, Nat.zero_le _⟩
  | next h _ ih => exact ⟨List.forall_mem_cons.mpr ⟨h.isShort, ih.1⟩, Nat.succ_le_succ ih.2⟩

/-- So are all runs of a version, and there are at most three. -/
theorem Chosen.isShort {runs : List (List Char)} (h : Chosen cs runs) :
    (∀ run ∈ runs, isShort run = true) ∧ runs.length ≤ 3 := by
  cases h with
  | none => exact ⟨by simp, Nat.zero_le 3⟩
  | some hfirst hmore =>
    obtain ⟨hshort, hlength⟩ := hmore.isShort
    exact ⟨List.forall_mem_cons.mpr ⟨hfirst.toShortRun.isShort, hshort⟩, Nat.succ_le_succ hlength⟩

/-- The runs that make up a version can be components, each of them. -/
theorem isShort_of_mem_componentRuns (h : run ∈ componentRuns cs) : isShort run = true :=
  (chosen_iff.mpr rfl).isShort.1 run h

theorem length_componentRuns_le (cs : List Char) : (componentRuns cs).length ≤ 3 :=
  (chosen_iff.mpr rfl).isShort.2

end ReleaseMatrix.Version
