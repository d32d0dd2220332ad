/-
  Durations as text: in the largest unit that gives at least 1, with exact decimals and without
  zeros at the end — `1s`, `1.5s`, `250ms`, `1.024µs`, `0ns`.
-/
namespace ReleaseMatrix.Text

/-- Digits on the left filled up with zeros to a width. -/
def padDigits (width : Nat) (ds : List Char) : List Char :=
  List.replicate (width - ds.length) '0' ++ ds

/-- A number of units, given in parts of which `10 ^ places` make a unit. -/
def decimal (places parts : Nat) : String :=
  let whole := (parts / Nat.pow 10 places).repr
  let digits := padDigits places (Nat.toDigits 10 (parts % Nat.pow 10 places))
  match digits.reverse.dropWhile (· == '0') with
  | [] => whole
  | kept => whole ++ "." ++ String.ofList kept.reverse

/-- The text of a number of nanoseconds. -/
def duration (nanos : Nat) : String :=
  if 1000000000 ≤ nanos then decimal 9 nanos ++ "s"
  else if 1000000 ≤ nanos then decimal 6 nanos ++ "ms"
  else if 1000 ≤ nanos then decimal 3 nanos ++ "µs"
  else nanos.repr ++ "ns"

end ReleaseMatrix.Text
