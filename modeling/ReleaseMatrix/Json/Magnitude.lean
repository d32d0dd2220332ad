/-
  Which numbers are too large — numbers are read but never used, so all that matters of one is
  whether it stays below the range of a 64-bit float.

  The judgement is that of a quick reader, and not the exact one, at the very edge of the range:
  1. digits go into the *significand* while it fits into a 64-bit word; the further digits of the
     integer part count as powers of ten, those of the fraction count for nothing;
  2. significand and power of ten are each rounded to 53 bits, and their product overflows from
     2^1024 - 2^970 on, halfway past the greatest float;
  3. a power of ten above 10^308 overflows by itself, unless the significand is zero;
  4. a negative power of ten never overflows.
-/
import ReleaseMatrix.Text.Limit

namespace ReleaseMatrix.Json

/-! ## Rounding -/

/-- The multiple of `2^k` nearest to a number; the even one of two. -/
def roundBits (n k : Nat) : Nat :=
  let unit := Nat.pow 2 k
  let low := n % unit
  let q := n / unit
  if 2 * low < unit ∨ (2 * low = unit ∧ q % 2 = 0) then q * unit else (q + 1) * unit

/-- The number of 53 leading bits nearest to a number. -/
def round53 (n : Nat) : Nat := roundBits n (n.log2 - 52)

/-! ## Numbers -/

/-- A number's digits before the point and after it, and its exponent. -/
structure Digits where
  whole : List Char
  fraction : List Char
  exponent : Int

/-- Adds digits to a significand while it fits into a word; also says how many were added. -/
def fill (significand : Nat) : List Char → Nat × Nat
  | [] => (significand, 0)
  | d :: rest =>
    let more := significand * 10 + (d.toNat - 48)
    if more < UInt64.size then ((fill more rest).1, (fill more rest).2 + 1) else (significand, 0)

/-- The number is out of range. -/
def Digits.isHuge (n : Digits) : Bool :=
  let (front, used) := fill 0 n.whole
  let (significand, places) := fill front n.fraction
  let exponent : Int := (n.whole.length - used : Nat) - places + n.exponent
  significand != 0 &&
    (308 < exponent ||
      (0 ≤ exponent &&
        Text.floatLimit ≤ round53 significand * round53 (Nat.pow 10 exponent.toNat)))

end ReleaseMatrix.Json
