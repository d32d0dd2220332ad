/-
  Digits — what a run of them is worth at most, and which characters are none.

  1. **Value** — `value?_lt`: a run of `n` ASCII digits spells a number below 10^n.
  2. **Runs** — `splitRun_append_of_digits`: a run ends where no digit follows.
  3. **Class** — `isDigit_eq_of_ascii`: of all blocks of ten digits one is in ASCII.
     `isDigit_eq_false_of_isBlank`: blanks are eleven stretches of code points, and no block meets
     one of them; nor does one meet the letters of ASCII.
-/
import Mathlib.Algebra.Group.Nat.Defs
import ReleaseMatrix.Text.Blank
import ReleaseMatrix.Text.Digit

namespace ReleaseMatrix.Text

/-! ## Value -/

theorem toNat_of_isDigit {c : Char} (h : c.isDigit = true) : 48 ≤ c.toNat ∧ c.toNat ≤ 57 := by
  simp only [Char.isDigit, Bool.and_eq_true, decide_eq_true_eq, ge_iff_le] at h
  exact ⟨h.1, h.2⟩

/-- Digits that follow a number below `m` leave it below `m * 10^n`. -/
theorem ofDigitChars_lt (cs : List Char) (h : cs.all Char.isDigit = true) {m init : Nat}
    (hinit : init < m) : Nat.ofDigitChars 10 cs init < m * 10 ^ cs.length := by
  induction cs generalizing m init with
  | nil => simpa using hinit
  | cons c rest ih =>
    rw [List.all_cons, Bool.and_eq_true] at h
    have hc := toNat_of_isDigit h.1
    have hzero : '0'.toNat = 48 := rfl
    have hnext : 10 * init + (c.toNat - '0'.toNat) < 10 * m := by omega
    have hlt := ih h.2 hnext
    rw [Nat.ofDigitChars_cons, List.length_cons, Nat.pow_succ]
    calc Nat.ofDigitChars 10 rest (10 * init + (c.toNat - '0'.toNat))
        < 10 * m * 10 ^ rest.length := hlt
      _ = m * (10 ^ rest.length * 10) := by
        rw [Nat.mul_comm 10 m, Nat.mul_assoc, Nat.mul_comm 10]

/-- The number that a run spells has no more digits than the run. -/
theorem value?_lt {run : List Char} {n : Nat} (h : value? run = some n) : n < 10 ^ run.length := by
  rw [value?] at h
  split at h
  case isTrue hall =>
    have hlt := ofDigitChars_lt run hall (m := 1) Nat.one_pos
    rw [Nat.one_mul] at hlt
    exact Option.some.inj h ▸ hlt
  case isFalse => exact absurd h (by simp)

/-! ## Runs -/

/-- Digits are the run that a text begins with, if no digit follows them. -/
theorem splitRun_append_of_digits {run rest : List Char} (hdigits : ∀ c ∈ run, isDigit c = true)
    (hrest : ∀ c ∈ rest.head?, isDigit c = false) : splitRun (run ++ rest) = (run, rest) := by
  rw [splitRun, List.takeWhile_append_of_pos hdigits, List.dropWhile_append_of_pos hdigits]
  cases rest with
  | nil => simp
  | cons c rest =>
    have hc : ¬ isDigit c = true := by
      rw [hrest c rfl]
      exact Bool.false_ne_true
    rw [List.takeWhile_cons_of_neg hc, List.dropWhile_cons_of_neg hc, List.append_nil]

theorem splitRun_cons_of_digit {c : Char} (h : isDigit c = true) (cs : List Char) :
    splitRun (c :: cs) = (c :: (splitRun cs).1, (splitRun cs).2) := by
  simp only [splitRun, List.takeWhile_cons_of_pos h, List.dropWhile_cons_of_pos h]

theorem splitRun_cons_of_not_digit {c : Char} (h : isDigit c = false) (cs : List Char) :
    splitRun (c :: cs) = ([], c :: cs) := by
  simp [splitRun, h]

theorem isDigit_of_mem_run {cs : List Char} {c : Char} (h : c ∈ (splitRun cs).1) :
    isDigit c = true :=
  List.all_eq_true.mp List.all_takeWhile c h

/-- Behind a run stands no digit. -/
theorem isDigit_behind_run (cs : List Char) : ∀ c ∈ (splitRun cs).2.head?, isDigit c = false := by
  intro c hc
  have hstop := List.head?_dropWhile_not isDigit cs
  rw [show (cs.dropWhile isDigit).head? = some c from hc] at hstop
  simpa using hstop

/-! ## Digits and other characters -/

/-- A digit is no other character. -/
theorem ne_of_isDigit {c d : Char} (hc : isDigit c = true) (hd : isDigit d = false) : c ≠ d := by
  rintro rfl
  rw [hc] at hd
  cases hd

/-- The stretches of code points that the blanks make up. -/
def blankStretches : List (Nat × Nat) :=
  [(9, 13), (0x20, 0x20), (0x85, 0x85), (0xA0, 0xA0), (0x1680, 0x1680), (0x2000, 0x200A),
   (0x2028, 0x2028), (0x2029, 0x2029), (0x202F, 0x202F), (0x205F, 0x205F), (0x3000, 0x3000)]

/-- A blank stands in one of these stretches. -/
theorem isBlank_iff {c : Char} :
    isBlank c = true ↔ ∃ s ∈ blankStretches, s.1 ≤ c.toNat ∧ c.toNat ≤ s.2 := by
  simp only [isBlank, blankStretches, List.mem_cons, List.not_mem_nil, or_false, exists_eq_or_imp,
    exists_eq_left, Bool.or_eq_true, Bool.and_eq_true, decide_eq_true_eq, beq_iff_eq, or_assoc]
  omega

theorem isDigit_iff {c : Char} :
    isDigit c = true ↔ ∃ z ∈ decimalZeros, z ≤ c.toNat ∧ c.toNat < z + 10 := by
  simp only [isDigit, List.any_eq_true, Bool.and_eq_true, decide_eq_true_eq]

/-- Of all scripts only one has its digits in ASCII. -/
theorem isDigit_eq_of_ascii {c : Char} (hc : c.toNat < 128) : isDigit c = c.isDigit := by
  rw [Bool.eq_iff_iff]
  refine ⟨fun hdigit => ?_, isDigit_of_ascii⟩
  obtain ⟨z, hz, hlow, hhigh⟩ := isDigit_iff.mp hdigit
  have hzeros : ∀ z ∈ decimalZeros, z = 48 ∨ 128 ≤ z := by decide
  have hfirst : 48 ≤ c.toNat ∧ c.toNat ≤ 57 := by
    have := hzeros z hz
    omega
  simp only [Char.isDigit, Bool.and_eq_true, decide_eq_true_eq, ge_iff_le]
  exact ⟨hfirst.1, hfirst.2⟩

/-- So a run of digits that is in ASCII spells a number. -/
theorem all_isDigit_of_ascii {run : List Char} (hdigits : ∀ c ∈ run, isDigit c = true)
    (hascii : ∀ c ∈ run, c.toNat < 128) : run.all Char.isDigit = true := by
  rw [List.all_eq_true]
  intro c hc
  rw [← isDigit_eq_of_ascii (hascii c hc)]
  exact hdigits c hc

/-- No block of the table of digits meets a stretch of blanks. -/
theorem stretches_disjoint :
    ∀ s ∈ blankStretches, ∀ z ∈ decimalZeros, z + 10 ≤ s.1 ∨ s.2 < z := by
  decide

/-- A blank is no digit of any script. -/
theorem isDigit_eq_false_of_isBlank {c : Char} (h : isBlank c = true) : isDigit c = false := by
  obtain ⟨s, hs, hlow, hhigh⟩ := isBlank_iff.mp h
  rw [Bool.eq_false_iff]
  intro hdigit
  obtain ⟨z, hz, hzlow, hzhigh⟩ := isDigit_iff.mp hdigit
  have := stretches_disjoint s hs z hz
  omega

/-- The letters of ASCII stand between its `A` and its `z`. -/
theorem toNat_of_isAlpha {c : Char} (h : c.isAlpha = true) : 65 ≤ c.toNat ∧ c.toNat ≤ 122 := by
  have hclass : (c.isUpper || c.isLower) = true := h
  rw [Bool.or_eq_true] at hclass
  rcases hclass with hupper | hlower
  · have hends : 'A'.val ≤ c.val ∧ c.val ≤ 'Z'.val := of_decide_eq_true hupper
    have hlow : 65 ≤ c.toNat := UInt32.le_iff_toNat_le.mp hends.1
    have hhigh : c.toNat ≤ 90 := UInt32.le_iff_toNat_le.mp hends.2
    omega
  · have hends : 'a'.val ≤ c.val ∧ c.val ≤ 'z'.val := by
      have h : (decide ('a'.val ≤ c.val) && decide (c.val ≤ 'z'.val)) = true := hlower
      rwa [Bool.and_eq_true, decide_eq_true_eq, decide_eq_true_eq] at h
    have hlow : 97 ≤ c.toNat := UInt32.le_iff_toNat_le.mp hends.1
    have hhigh : c.toNat ≤ 122 := UInt32.le_iff_toNat_le.mp hends.2
    omega

/-- Letters and digits of ASCII stand among its printing characters. -/
theorem toNat_of_isAlphanum {c : Char} (h : c.isAlphanum = true) :
    48 ≤ c.toNat ∧ c.toNat ≤ 122 := by
  have hclass : (c.isAlpha || c.isDigit) = true := h
  rw [Bool.or_eq_true] at hclass
  rcases hclass with halpha | hdigit
  · have := toNat_of_isAlpha halpha
    omega
  · have := toNat_of_isDigit hdigit
    omega

/-- A letter of ASCII is no digit of any script. -/
theorem isDigit_eq_false_of_isAlpha {c : Char} (h : c.isAlpha = true) : isDigit c = false := by
  have hplace := toNat_of_isAlpha h
  rw [Bool.eq_false_iff]
  intro hdigit
  obtain ⟨z, hz, hlow, hhigh⟩ := isDigit_iff.mp hdigit
  have houtside : ∀ z ∈ decimalZeros, z + 10 ≤ 65 ∨ 122 < z := by decide
  have := houtside z hz
  omega

/-- Blanks stand outside the printing characters of ASCII. -/
theorem toNat_of_isBlank {c : Char} (h : isBlank c = true) : c.toNat ≤ 0x20 ∨ 0x85 ≤ c.toNat := by
  obtain ⟨s, hs, hlow, hhigh⟩ := isBlank_iff.mp h
  have houtside : ∀ s ∈ blankStretches, s.2 ≤ 0x20 ∨ 0x85 ≤ s.1 := by decide
  have := houtside s hs
  omega

end ReleaseMatrix.Text
