/-
  Limits of the numbers that a document may hold.
-/
namespace ReleaseMatrix.Text

/-- Where the range of a 64-bit float ends: halfway past the greatest one. -/
def floatLimit : Nat := Nat.pow 2 1024 - Nat.pow 2 970

/-- How many numbers a signed 64-bit integer has from zero upward. -/
def integerLimit : Nat := 9223372036854775808

end ReleaseMatrix.Text
