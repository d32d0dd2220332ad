/-
  Extraction — the version that a text holds, and when it holds none.

  The runs of a version are picked without a look at the script of their digits, and only then read:

      8.2.1RC1        8 | 2 | 1        8.2.1
      8.２             8 | ２            none, for a wide ２ is a digit and spells no number
      v               nothing          none

  A short run has at most 16 digits, so the number that it spells is below 10^16, and a word holds
  it as it is.

  1. **One run** — `component?_of_ascii` and `component?_of_foreign`.
  2. **The runs of a version** — `spells_extract?`, and `extracts_chosen_runs`.
-/
import Mathlib.Data.List.GetD
import ReleaseMatrix.Proofs.Version.Matching
import ReleaseMatrix.Proofs.Version.Written

namespace ReleaseMatrix.Version

open Text

/-! ## One run -/

/-- The number that ASCII digits spell in decimal; no digits spell zero. -/
def number (run : List Char) : Nat := Nat.ofDigitChars 10 run 0

/-- A short run of ASCII digits spells its number, which fits into a word. -/
theorem component?_of_ascii {run : List Char} (hshort : isShort run = true)
    (hascii : ∀ c ∈ run, c.isDigit = true) :
    ∃ n, component? run = some n ∧ n.toNat = number run := by
  have hvalue : value? run = some (number run) := by
    rw [value?, if_pos (List.all_eq_true.mpr hascii)]
    rfl
  have hcomponent : component? run = some (UInt64.ofNat (number run)) := by
    rw [component?, hvalue]
    rfl
  have hlt : number run < UInt64.size := by
    calc number run < 10 ^ run.length := value?_lt hvalue
      _ ≤ 10 ^ maxDigits := Nat.pow_le_pow_right (by omega) (isShort_iff.mp hshort).2
      _ < UInt64.size := by decide
  exact ⟨_, hcomponent, UInt64.toNat_ofNat_of_lt hlt⟩

/-- Digits of other scripts spell no number. -/
theorem component?_of_foreign {run : List Char} {c : Char} (hc : c ∈ run)
    (hforeign : c.isDigit = false) : component? run = none := by
  have hall : ¬ run.all Char.isDigit = true := by
    rw [List.all_eq_true]
    intro hall
    rw [hall c hc] at hforeign
    cases hforeign
  rw [component?, value?, if_neg hall]
  rfl

/-! ## The runs of a version -/

/-- What runs spell. -/
inductive Spells (runs : List (List Char)) : Option Version → Prop
  /-- There is no run, so there is no version. -/
  | nothing (h : runs = []) : Spells runs none
  /-- A digit of another script spells no number. -/
  | foreign (h : ∃ run ∈ runs, ∃ c ∈ run, c.isDigit = false) : Spells runs none
  /-- ASCII digits spell the numbers of a version, and where a run is missing, zero. -/
  | version {v : Version} (hne : runs ≠ []) (hascii : ∀ run ∈ runs, ∀ c ∈ run, c.isDigit = true)
      (hmajor : v.major.toNat = number (runs.getD 0 []))
      (hminor : v.minor.toNat = number (runs.getD 1 []))
      (hpatch : v.patch.toNat = number (runs.getD 2 [])) : Spells runs (some v)

/-- A digit that is not in ASCII spoils the version. -/
theorem mapM_component?_of_foreign {runs : List (List Char)}
    (h : ∃ run ∈ runs, ∃ c ∈ run, c.isDigit = false) : runs.mapM component? = none := by
  obtain ⟨run, hrun, c, hc, hforeign⟩ := h
  induction runs with
  | nil => cases hrun
  | cons first runs ih =>
    rw [List.mapM_cons]
    rcases List.mem_cons.mp hrun with rfl | hrun
    · rw [component?_of_foreign hc hforeign]
      rfl
    · rw [ih hrun]
      cases component? first <;> rfl

/-- Runs of ASCII digits spell their numbers, one by one. -/
theorem mapM_component?_of_ascii {runs : List (List Char)}
    (hshort : ∀ run ∈ runs, isShort run = true)
    (hascii : ∀ run ∈ runs, ∀ c ∈ run, c.isDigit = true) :
    ∃ ns, runs.mapM component? = some ns ∧ ns.map UInt64.toNat = runs.map number := by
  induction runs with
  | nil => exact ⟨[], rfl, rfl⟩
  | cons run runs ih =>
    rw [List.forall_mem_cons] at hshort hascii
    obtain ⟨n, hn, hnumber⟩ := component?_of_ascii hshort.1 hascii.1
    obtain ⟨ns, hns, hnumbers⟩ := ih hshort.2 hascii.2
    refine ⟨n :: ns, ?_, by rw [List.map_cons, List.map_cons, hnumber, hnumbers]⟩
    rw [List.mapM_cons, hn, hns]
    rfl

/-- What is extracted is what the picked runs spell. -/
theorem spells_extract? (text : String) :
    Spells (componentRuns text.toList) (extract? text) := by
  have hshort : ∀ run ∈ componentRuns text.toList, isShort run = true :=
    fun _ => isShort_of_mem_componentRuns
  have hlength := length_componentRuns_le text.toList
  unfold extract?
  generalize componentRuns text.toList = runs at hshort hlength
  -- one digit of another script anywhere, and there is no version at all
  by_cases hforeign : ∃ run ∈ runs, ∃ c ∈ run, c.isDigit = false
  · rw [mapM_component?_of_foreign hforeign]
    exact .foreign hforeign
  · have hascii : ∀ run ∈ runs, ∀ c ∈ run, c.isDigit = true := by
      intro run hrun c hc
      by_contra hc'
      exact hforeign ⟨run, hrun, c, hc, by simpa using hc'⟩
    obtain ⟨ns, hns, hnumbers⟩ := mapM_component?_of_ascii hshort hascii
    have hlengths : ns.length = runs.length := by
      simpa using congrArg List.length hnumbers
    have hnumber (i : Nat) : number (runs.getD i []) = (ns.map UInt64.toNat).getD i 0 := by
      rw [hnumbers]
      exact (List.getD_map runs [] number).symm
    have hne (h : ns ≠ []) : runs ≠ [] := by
      rintro rfl
      exact h (List.length_eq_zero_iff.mp hlengths)
    rw [hns]
    split
    case h_1 major h =>
      obtain rfl := Option.some.inj h
      exact .version (hne (by simp)) hascii (hnumber 0).symm (hnumber 1).symm (hnumber 2).symm
    case h_2 major minor h =>
      obtain rfl := Option.some.inj h
      exact .version (hne (by simp)) hascii (hnumber 0).symm (hnumber 1).symm (hnumber 2).symm
    case h_3 major minor patch h =>
      obtain rfl := Option.some.inj h
      exact .version (hne (by simp)) hascii (hnumber 0).symm (hnumber 1).symm (hnumber 2).symm
    case h_4 hone htwo hthree =>
      match ns with
      | [] => exact .nothing (List.length_eq_zero_iff.mp hlengths.symm)
      | [a] => exact absurd rfl (hone a)
      | [a, b] => exact absurd rfl (htwo a b)
      | [a, b, c] => exact absurd rfl (hthree a b c)
      | a :: b :: c :: d :: more =>
        simp only [List.length_cons] at hlengths
        omega

/-- **Which version a text holds.**  The runs that make it up are determined: the leftmost short run
of digits, and the short runs that follow it behind a dot each, two at most.  If there is none, or if
one of them has a digit that is not an ASCII one, the text holds no version; otherwise it holds the
version of the numbers that they spell, with zero for a missing one, and no number is too large for a
word.  It is the version that the first match of the pattern spells. -/
theorem extracts_chosen_runs (text : String) :
    ∃ runs, (∀ other, Chosen text.toList other ↔ other = runs) ∧ Spells runs (extract? text) ∧
      matched? text = extract? text :=
  ⟨componentRuns text.toList, fun _ => chosen_iff, spells_extract? text, matched?_eq_extract? text⟩

end ReleaseMatrix.Version
