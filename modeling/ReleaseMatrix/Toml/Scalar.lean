/-
  Booleans, numbers and dates, as they are written in TOML.

  Such a value is a run of letters, digits and the signs `+ - _ . :` that has one of these forms:

      true  false
      17  -1_000  0xBEEF  0o17  0b1010              an integer of 64 bits
      1.5  -2e10  inf  +nan                         a float, and not above the greatest
      2024-02-29  07:32:00.5  2024-02-29T07:32:00Z  a date that exists, a time, or both

  A date and a time may also have one blank between them.
-/
import ReleaseMatrix.Text.Limit
import ReleaseMatrix.Toml

namespace ReleaseMatrix.Toml.Scalar

open Text (floatLimit integerLimit)

/-! ## Digits -/

/-- Digits of a class, with single underscores between them; gives the digits alone. -/
def grouped (p : Char → Bool) : List Char → Option (List Char)
  | [] => none
  | [c] => if p c then some [c] else none
  | c :: '_' :: rest => if p c then (grouped p rest).map (c :: ·) else none
  | c :: rest => if p c then (grouped p rest).map (c :: ·) else none

/-- The value of digits in a base; letters count as their hexadecimal values. -/
def valueIn (base : Nat) (ds : List Char) : Nat :=
  ds.foldl (fun n d =>
    n * base + (if d.isDigit then d.toNat - 48 else d.toLower.toNat - 87)) 0

/-- Decimal digits in which a zero stands alone. -/
def wholeDigits (cs : List Char) : Option (List Char) :=
  match grouped Char.isDigit cs with
  | some ('0' :: _ :: _) => none
  | digits? => digits?

/-- The text without its sign, and whether that was a minus. -/
def unsigned : List Char → Bool × List Char
  | '-' :: rest => (true, rest)
  | '+' :: rest => (false, rest)
  | cs => (false, cs)

/-! ## Numbers -/

/-- A hexadecimal digit. -/
def isHex (c : Char) : Bool :=
  c.isDigit || ('a' ≤ c && c ≤ 'f') || ('A' ≤ c && c ≤ 'F')

/-- An integer that fits into 64 bits. -/
def isInteger (cs : List Char) : Bool :=
  let fits (base : Nat) (limit : Nat) (ds? : Option (List Char)) : Bool :=
    match ds? with
    | some ds => valueIn base ds < limit
    | none => false
  match cs with
  | '0' :: 'x' :: ds => fits 16 integerLimit (grouped isHex ds)
  | '0' :: 'o' :: ds => fits 8 integerLimit (grouped (fun c => '0' ≤ c && c ≤ '7') ds)
  | '0' :: 'b' :: ds => fits 2 integerLimit (grouped (fun c => c == '0' || c == '1') ds)
  | cs =>
    let (negative, ds) := unsigned cs
    fits 10 (if negative then integerLimit + 1 else integerLimit) (wholeDigits ds)

/-- Digits times a power of ten are too large for a 64-bit float. -/
def isHuge (digits : List Char) (exponent : Int) : Bool :=
  let n := Nat.ofDigitChars 10 digits 0
  -- the number of digits before the point decides unless it is that of the greatest float
  let size : Int := (Nat.toDigits 10 n).length + exponent
  if n = 0 then false
  else if size < 309 then false
  else if 309 < size then true
  else if 0 ≤ exponent then floatLimit ≤ n * Nat.pow 10 exponent.toNat
  else floatLimit * Nat.pow 10 (-exponent).toNat ≤ n

/-- A float; one that is written with a fraction or an exponent must not be above the greatest. -/
def isFloat (cs : List Char) : Bool :=
  let (negative, body) := unsigned cs
  if body = "inf".toList || body = "nan".toList then true
  else
    let isMark (c : Char) : Bool := c == 'e' || c == 'E'
    let mantissa := body.takeWhile (fun c => !isMark c)
    let whole := mantissa.takeWhile (· != '.')
    let fraction? : Option (List Char) :=
      match mantissa.dropWhile (· != '.') with
      | [] => some []
      | _ :: digits => grouped Char.isDigit digits
    let exponent? : Option Int :=
      match body.dropWhile (fun c => !isMark c) with
      | [] => some 0
      | _ :: digits =>
        let (minus, digits) := unsigned digits
        (grouped Char.isDigit digits).map fun ds =>
          let n : Int := Nat.ofDigitChars 10 ds 0
          if minus then -n else n
    match wholeDigits whole, fraction?, exponent? with
    | some whole, some fraction, some exponent =>
      body.any (fun c => c == '.' || isMark c) &&
        (negative || !isHuge (whole ++ fraction) (exponent - fraction.length))
    | _, _, _ => false

/-! ## Dates and times -/

/-- A number of exactly so many digits at the start of a text. -/
def fixed (count : Nat) (cs : List Char) : Option (Nat × List Char) :=
  let ds := cs.take count
  if ds.length = count ∧ ds.all Char.isDigit then
    some (Nat.ofDigitChars 10 ds 0, cs.drop count)
  else none

/-- The days of a month. -/
def daysIn (year month : Nat) : Nat :=
  if month = 2 then
    if year % 4 = 0 ∧ (year % 100 ≠ 0 ∨ year % 400 = 0) then 29 else 28
  else if month = 4 ∨ month = 6 ∨ month = 9 ∨ month = 11 then 30
  else 31

/-- Drops the date that a text starts with. -/
def dropDate? (cs : List Char) : Option (List Char) := do
  let (year, cs) ← fixed 4 cs
  let '-' :: cs := cs | none
  let (month, cs) ← fixed 2 cs
  let '-' :: cs := cs | none
  let (day, cs) ← fixed 2 cs
  if 1 ≤ month ∧ month ≤ 12 ∧ 1 ≤ day ∧ day ≤ daysIn year month then some cs else none

/-- Drops the hour and the minute that a text starts with. -/
def dropMinutes? (cs : List Char) : Option (List Char) := do
  let (hour, cs) ← fixed 2 cs
  let ':' :: cs := cs | none
  let (minute, cs) ← fixed 2 cs
  if hour ≤ 23 ∧ minute ≤ 59 then some cs else none

/-- Drops the time of day that a text starts with; a leap second is one. -/
def dropTime? (cs : List Char) : Option (List Char) := do
  let ':' :: cs ← dropMinutes? cs | none
  let (second, cs) ← fixed 2 cs
  if 60 < second then none
  match cs with
  | '.' :: fraction =>
    if fraction.takeWhile Char.isDigit = [] then none
    else some (fraction.dropWhile Char.isDigit)
  | cs => some cs

/-- The distance from world time that may end a date with a time. -/
def isOffset : List Char → Bool
  | [] | ['Z'] | ['z'] => true
  | '+' :: cs | '-' :: cs => dropMinutes? cs == some []
  | _ => false

/-- A time, perhaps with an offset. -/
def isTimeWithOffset (cs : List Char) : Bool := (dropTime? cs).any isOffset

/-- A date alone. -/
def isDate (cs : List Char) : Bool := dropDate? cs == some []

/-- A date, a time, or a date and a time joined by the letter T. -/
def isDateOrTime (cs : List Char) : Bool :=
  dropTime? cs == some [] ||
    match dropDate? cs with
    | some [] => true
    | some ('T' :: cs) | some ('t' :: cs) => isTimeWithOffset cs
    | _ => false

/-! ## Reading -/

/-- A character of such values. -/
def isScalarChar (c : Char) : Bool :=
  c.isAlphanum || c == '+' || c == '-' || c == '_' || c == '.' || c == ':'

/-- The value that a run of such characters is. -/
def ofRun? (cs : List Char) : Option Toml :=
  if cs = "true".toList then some (.boolean true)
  else if cs = "false".toList then some (.boolean false)
  else if isInteger cs || isFloat cs then some .number
  else if isDateOrTime cs then some .date
  else none

/-- The value at the start of a text, and what follows it. -/
def read? (cs : List Char) : Option (Toml × List Char) := do
  let run := cs.takeWhile isScalarChar
  let rest := cs.dropWhile isScalarChar
  let v ← ofRun? run
  match rest with
  | ' ' :: more =>
    -- the time of a date may follow behind a blank
    if isDate run && isTimeWithOffset (more.takeWhile isScalarChar) then
      return (v, more.dropWhile isScalarChar)
    else return (v, rest)
  | rest => return (v, rest)

end ReleaseMatrix.Toml.Scalar
