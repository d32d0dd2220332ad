/-
  Decimal digits and the numbers they spell.

  A run of digits is delimited by the whole class Nd of the character database, but only the ten
  ASCII digits have a value here: `value?` of a run with any other digit in it is `none`, so such a
  run takes part in finding where a number stands and then counts as no number.

  Nd is a union of blocks of ten consecutive characters, the digits 0 to 9 of one script, so the
  table lists the zeros only.  It is that of Unicode 16.0, where the class has 76 blocks.
-/
namespace ReleaseMatrix.Text

/-! ## The class -/

/-- The zeros of the scripts' digits in Unicode 16.0: each starts a block of ten. -/
def decimalZeros : List Nat :=
  [0x30, 0x660, 0x6F0, 0x7C0, 0x966, 0x9E6, 0xA66, 0xAE6, 0xB66, 0xBE6, 0xC66, 0xCE6, 0xD66, 0xDE6,
   0xE50, 0xED0, 0xF20, 0x1040, 0x1090, 0x17E0, 0x1810, 0x1946, 0x19D0, 0x1A80, 0x1A90, 0x1B50,
   0x1BB0, 0x1C40, 0x1C50, 0xA620, 0xA8D0, 0xA900, 0xA9D0, 0xA9F0, 0xAA50, 0xABF0, 0xFF10, 0x104A0,
   0x10D30, 0x10D40, 0x11066, 0x110F0, 0x11136, 0x111D0, 0x112F0, 0x11450, 0x114D0, 0x11650,
   0x116C0, 0x116D0, 0x116DA, 0x11730, 0x118E0, 0x11950, 0x11BF0, 0x11C50, 0x11D50, 0x11DA0,
   0x11F50, 0x16130, 0x16A60, 0x16AC0, 0x16B50, 0x16D70, 0x1CCF0, 0x1D7CE, 0x1D7D8, 0x1D7E2,
   0x1D7EC, 0x1D7F6, 0x1E140, 0x1E2F0, 0x1E4F0, 0x1E5F1, 0x1E950, 0x1FBF0]

/-- A decimal digit of any script. -/
def isDigit (c : Char) : Bool :=
  decimalZeros.any fun z => z ≤ c.toNat && c.toNat < z + 10

/-- The digits of ASCII are digits. -/
theorem isDigit_of_ascii {c : Char} (h : c.isDigit) : isDigit c := by
  have h' : 48 ≤ c.toNat ∧ c.toNat ≤ 57 := by
    simp only [Char.isDigit, Bool.and_eq_true, decide_eq_true_eq, ge_iff_le] at h
    exact ⟨h.1, h.2⟩
  simp only [isDigit, decimalZeros, List.any_cons, Bool.or_eq_true, Bool.and_eq_true,
    decide_eq_true_eq]
  exact Or.inl ⟨h'.1, by omega⟩

/-! ## Runs of digits -/

/-- The digits a text begins with, and what follows them. -/
def splitRun (cs : List Char) : List Char × List Char :=
  (cs.takeWhile isDigit, cs.dropWhile isDigit)

theorem splitRun_append (cs : List Char) : (splitRun cs).1 ++ (splitRun cs).2 = cs :=
  List.takeWhile_append_dropWhile

/-- The number that ASCII digits spell; `none` if a character is not one of them. -/
def value? (cs : List Char) : Option Nat :=
  if cs.all Char.isDigit then some (Nat.ofDigitChars 10 cs 0) else none

/-- A number that is written is the value of what is written. -/
theorem value?_toDigits (n : Nat) : value? (Nat.toDigits 10 n) = some n := by
  have h : (Nat.toDigits 10 n).all Char.isDigit := by
    rw [List.all_eq_true]
    exact fun c hc => Nat.isDigit_of_mem_toDigits (by omega) (by omega) hc
  rw [value?, if_pos h, Nat.ofDigitChars_toDigits (by omega) (by omega)]

end ReleaseMatrix.Text
