/-
  Backoff — how far the delays double.

  The law of the delays is the smaller of base · 2^attempt and a minute.  A client computes them in
  bounded numbers, and whatever does not fit it takes for longer than a minute.  For a product that
  is right; for the factor 2^attempt, which has 32 bits, it depends on the base:

      attempt        0      1      2    …     31         32
      1 s           1 s    2 s    4 s   …    1 min      1 min
      14 ns        14 ns  28 ns  56 ns  …   30.06 s     1 min
      13 ns        13 ns  26 ns  52 ns  …   27.92 s     1 min      by the law 55.83 s
      0             0      0      0     …     0         1 min      by the law 0

  So a client that is told not to wait at all waits a minute from attempt 32 on.

  1. **Bounded numbers** — `delay_eq_inWords`, the delay with every number in its range.
  2. **The law** — `delay_eq_exact_iff` for one delay, `law_holds_iff` for all of one base, and
     `exponential_iff`.
  3. **Fetches** — `delays_run_exact`, the delays of a whole fetch.
-/
import Mathlib.Algebra.Group.Nat.Defs
import ReleaseMatrix.Proofs.Catalog.Retries

namespace ReleaseMatrix.Catalog.Fetch

theorem delay_of_lt (base : Nat) {attempt : Nat} (h : attempt < 32) :
    delay base attempt = min (base * 2 ^ attempt) maxDelay := by
  rw [delay_eq, if_pos h]
  rfl

theorem delay_of_le (base : Nat) {attempt : Nat} (h : 32 ≤ attempt) :
    delay base attempt = maxDelay := by
  rw [delay, if_pos h]

/-! ## Bounded numbers -/

/-- A number, if it is below a limit. -/
def fitting? (limit n : Nat) : Option Nat := if n < limit then some n else none

/-- How many durations there are: 64-bit numbers of seconds, each with its nanoseconds. -/
def durations : Nat := 2 ^ 64 * second

/-- The delay in bounded numbers: a factor of 32 bits, and a product that is a duration.  Where one
of them does not fit, the delay is the longest. -/
def delayInWords (base attempt : Nat) : Nat :=
  match (fitting? (2 ^ 32) (2 ^ attempt)).bind fun factor => fitting? durations (base * factor) with
  | some nanos => min nanos maxDelay
  | none => maxDelay

/-- The factor fits up to attempt 31, and a product that does not fit is longer than a minute. -/
theorem delay_eq_inWords (base attempt : Nat) : delay base attempt = delayInWords base attempt := by
  unfold delayInWords
  by_cases h : attempt < 32
  · have hfactor : fitting? (2 ^ 32) (2 ^ attempt) = some (2 ^ attempt) :=
      if_pos (Nat.pow_lt_pow_right (by omega) h)
    rw [delay_of_lt base h, hfactor, Option.bind_some, fitting?]
    by_cases hproduct : base * 2 ^ attempt < durations
    · rw [if_pos hproduct]
    · rw [if_neg hproduct]
      have hlong : maxDelay ≤ durations := by decide
      exact Nat.min_eq_right (by omega)
  · have hfactor : fitting? (2 ^ 32) (2 ^ attempt) = none :=
      if_neg (Nat.not_lt.mpr (Nat.pow_le_pow_right (by omega) (by omega)))
    rw [delay_of_le base (by omega), hfactor, Option.bind_none]

/-! ## The law -/

/-- The law of the delays, in exact numbers. -/
def exactDelay (base attempt : Nat) : Nat := min (base * 2 ^ attempt) maxDelay

/-- The delay is the exact one as long as its power fits, and wherever the exact one is over the
cap. -/
theorem delay_eq_exact_iff (base attempt : Nat) :
    delay base attempt = exactDelay base attempt ↔
      attempt < 32 ∨ maxDelay ≤ base * 2 ^ attempt := by
  unfold exactDelay
  by_cases h : attempt < 32
  · exact iff_of_true (delay_of_lt base h) (.inl h)
  · rw [delay_of_le base (by omega)]
    omega

/-- From 14 nanoseconds on, the product has passed the minute where the factor no longer fits. -/
theorem maxDelay_le_product {base attempt : Nat} (hbase : 14 ≤ base) (hattempt : 32 ≤ attempt) :
    maxDelay ≤ base * 2 ^ attempt :=
  calc maxDelay ≤ 14 * 2 ^ 32 := by decide
    _ ≤ base * 2 ^ attempt := Nat.mul_le_mul hbase (Nat.pow_le_pow_right (by omega) hattempt)

/-- For all attempts together that is a question of the base alone. -/
theorem law_holds_iff (base : Nat) :
    (∀ attempt, delay base attempt = exactDelay base attempt) ↔ 14 ≤ base := by
  constructor
  · intro hlaw
    -- attempt 32 tells the bases apart
    have hlong : maxDelay ≤ base * 2 ^ 32 :=
      ((delay_eq_exact_iff base 32).mp (hlaw 32)).resolve_left (by omega)
    have hminute : maxDelay = 60000000000 := rfl
    omega
  · intro hbase attempt
    rw [delay_eq_exact_iff]
    by_cases h : attempt < 32
    · exact .inl h
    · exact .inr (maxDelay_le_product hbase (by omega))

/-- **How far the delays are exponential.**  The delay, computed in bounded numbers, is the smaller of
base · 2^attempt and a minute for the attempts below 32, and for a later one exactly if that product
has reached the minute; otherwise it is the minute all the same.  So the law holds of all attempts
for the bases from 14 nanoseconds on, and for no smaller one; and where the base is zero, there is no
delay up to attempt 31 only. -/
theorem exponential_iff (base attempt : Nat) :
    delay base attempt = delayInWords base attempt ∧
    (delay base attempt = min (base * 2 ^ attempt) maxDelay ↔
      attempt < 32 ∨ maxDelay ≤ base * 2 ^ attempt) ∧
    (delay base attempt = min (base * 2 ^ attempt) maxDelay ∨ delay base attempt = maxDelay) ∧
    ((∀ i, delay base i = min (base * 2 ^ i) maxDelay) ↔ 14 ≤ base) ∧
    (delay 0 attempt = 0 ↔ attempt < 32) := by
  refine ⟨delay_eq_inWords base attempt, delay_eq_exact_iff base attempt, ?_, law_holds_iff base, ?_⟩
  · by_cases h : attempt < 32
    · exact .inl (delay_of_lt base h)
    · exact .inr (delay_of_le base (by omega))
  · by_cases h : attempt < 32
    · rw [delay_of_lt 0 h, Nat.zero_mul, Nat.zero_min]
      exact iff_of_true rfl h
    · rw [delay_of_le 0 (by omega)]
      exact iff_of_false (by decide) h

/-- Without a base, the delay is a minute after 32 attempts. -/
theorem delay_zero_breaks_off :
    delay 0 31 = 0 ∧ delay 0 32 = 60 * second ∧ delay 0 32 ≠ min (0 * 2 ^ 32) maxDelay := by
  decide

/-! ## Fetches -/

/-- **The delays of a whole fetch** follow the law if it has at most 32 retries, or a base for which
the law holds of every attempt. -/
theorem delays_run_exact {p : Patience} (h : p.retries ≤ 32 ∨ 14 ≤ p.base) (script : Script)
    (url : String) :
    ∃ last ≤ p.retries, (run p script url).delays = (List.range last).map (exactDelay p.base) := by
  obtain ⟨last, hlast, hstops⟩ := exists_stopsAt_le p script url
  refine ⟨last, hlast, ?_⟩
  rw [hstops.delays]
  refine List.map_congr_left fun attempt hattempt => ?_
  rcases h with hretries | hbase
  · have hlt : attempt < 32 := by
      have := List.mem_range.mp hattempt
      omega
    exact delay_of_lt p.base hlt
  · exact (law_holds_iff p.base).mpr hbase attempt

end ReleaseMatrix.Catalog.Fetch
