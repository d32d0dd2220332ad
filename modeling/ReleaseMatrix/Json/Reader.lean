/-
  Reading JSON, left to right, with the first fault that is met.

  A fault is one of three: the text ends inside a value (*incomplete*), it breaks the grammar
  (*malformed*), or a well-formed value is not of the shape that was asked for (*unexpected*).

  A value is read with one of two *cares*.  `exact` is for values that are kept: surrogate escapes
  come in pairs, numbers stay in the range of a 64-bit float.  `skim` is for values that are passed
  over: neither is checked, and a number that the end of the text cuts off is malformed and not
  incomplete.

  Readers take the characters that are left and return what is left behind the value.  Nesting is
  bounded by a depth; sequences are bounded by the length of the text, since each entry takes at
  least one character.
-/
import ReleaseMatrix.Json
import ReleaseMatrix.Json.Magnitude

namespace ReleaseMatrix.Json

/-- Why a text could not be read. -/
inductive Fault where
  | incomplete
  | malformed
  | unexpected
deriving DecidableEq, Repr

/-- What a report says of a fault.  The texts stand for those of the JSON reader, which also tell the
line and the column; of them only the kind of the fault is kept. -/
def Fault.message : Fault → String
  | incomplete => "<json eof>"
  | malformed => "<json syntax>"
  | unexpected => "<json data>"

/-- How carefully a value is read. -/
inductive Care where
  | exact
  | skim
deriving DecidableEq, Repr

/-! ## Blanks and words -/

/-- The four blanks between the tokens of a document. -/
def isBlank (c : Char) : Bool := c == ' ' || c == '\t' || c == '\n' || c == '\r'

/-- The text from its first character that is no blank. -/
def skipBlanks (cs : List Char) : List Char := cs.dropWhile isBlank

/-- The rest of a word, such as the `ull` of `null`. -/
def word {α : Type} (value : α) : List Char → List Char → Except Fault (α × List Char)
  | [], cs => .ok (value, cs)
  | _ :: _, [] => .error .incomplete
  | w :: ws, c :: cs => if c = w then word value ws cs else .error .malformed

/-! ## Strings -/

/-- The value of a hexadecimal digit. -/
def hexValue? (c : Char) : Option Nat :=
  if '0' ≤ c ∧ c ≤ '9' then some (c.toNat - 48)
  else if 'a' ≤ c ∧ c ≤ 'f' then some (c.toNat - 87)
  else if 'A' ≤ c ∧ c ≤ 'F' then some (c.toNat - 55)
  else none

/-- The number that four hexadecimal digits spell. -/
def codeUnit? (a b c d : Char) : Option Nat := do
  return (((← hexValue? a) * 16 + (← hexValue? b)) * 16 + (← hexValue? c)) * 16 + (← hexValue? d)

/-- The four digits behind `\u`.  The text ends inside them if fewer than four bytes are left. -/
def codeUnit : List Char → Except Fault (Nat × List Char)
  | a :: b :: c :: d :: rest =>
    match codeUnit? a b c d with
    | some n => .ok (n, rest)
    | none => .error .malformed
  | short =>
    .error (if (String.ofList short).utf8ByteSize < 4 then .incomplete else .malformed)

/-- A code unit that must be followed by a second one. -/
def isLeading (n : Nat) : Bool := 0xD800 ≤ n && n ≤ 0xDBFF

/-- A code unit that must follow a leading one. -/
def isTrailing (n : Nat) : Bool := 0xDC00 ≤ n && n ≤ 0xDFFF

/-- The character of a leading code unit and the trailing one that must follow it. -/
def pairEscape (high : Nat) : List Char → Except Fault (Char × List Char)
  | '\\' :: 'u' :: rest =>
    match codeUnit rest with
    | .error f => .error f
    | .ok (low, rest) =>
      if isTrailing low then
        .ok (Char.ofNat (0x10000 + (high - 0xD800) * 0x400 + (low - 0xDC00)), rest)
      else .error .malformed
  | [] | ['\\'] => .error .incomplete
  | _ => .error .malformed

/-- The character of one code unit, or of two that form a pair. -/
def codeEscape (care : Care) (cs : List Char) : Except Fault (Char × List Char) :=
  match codeUnit cs with
  | .error f => .error f
  | .ok (n, rest) =>
    if !isLeading n && !isTrailing n then .ok (Char.ofNat n, rest)
    -- what is passed over need not be a character
    else if care = .skim then .ok ('\uFFFD', rest)
    else if isTrailing n then .error .malformed
    else pairEscape n rest

/-- The character that a letter behind a backslash stands for. -/
def shortEscape? (c : Char) : Option Char :=
  if c = '"' ∨ c = '\\' ∨ c = '/' then some c
  else if c = 'b' then some '\x08'
  else if c = 'f' then some '\x0c'
  else if c = 'n' then some '\n'
  else if c = 'r' then some '\r'
  else if c = 't' then some '\t'
  else none

/-- What stands behind a backslash. -/
def escape (care : Care) : List Char → Except Fault (Char × List Char)
  | [] => .error .incomplete
  | c :: rest =>
    if c = 'u' then codeEscape care rest
    else
      match shortEscape? c with
      | some e => .ok (e, rest)
      | none => .error .malformed

/-- A code unit takes its characters off the text. -/
theorem length_of_codeUnit {cs rest : List Char} {n : Nat} (h : codeUnit cs = .ok (n, rest)) :
    rest.length ≤ cs.length := by
  unfold codeUnit at h
  split at h
  · split at h
    · simp only [Except.ok.injEq, Prod.mk.injEq] at h
      simp only [List.length_cons, ← h.2]; omega
    · simp at h
  · simp at h

/-- So does the second half of a pair. -/
theorem length_of_pairEscape {high : Nat} {cs rest : List Char} {c : Char}
    (h : pairEscape high cs = .ok (c, rest)) : rest.length ≤ cs.length := by
  unfold pairEscape at h
  split at h
  · split at h
    · simp at h
    · next hu =>
      split at h
      · simp only [Except.ok.injEq, Prod.mk.injEq] at h
        have := length_of_codeUnit hu
        simp only [List.length_cons, ← h.2]; omega
      · simp at h
  · simp at h
  · simp at h
  · simp at h

/-- And so does a numbered escape. -/
theorem length_of_codeEscape {care : Care} {cs rest : List Char} {c : Char}
    (h : codeEscape care cs = .ok (c, rest)) : rest.length ≤ cs.length := by
  unfold codeEscape at h
  split at h
  · simp at h
  · next hu =>
    have hr := length_of_codeUnit hu
    split at h
    · simp only [Except.ok.injEq, Prod.mk.injEq] at h
      exact h.2 ▸ hr
    · split at h
      · simp only [Except.ok.injEq, Prod.mk.injEq] at h
        exact h.2 ▸ hr
      · split at h
        · simp at h
        · exact Nat.le_trans (length_of_pairEscape h) hr

/-- Every escape takes at least a character, so a string comes to its end. -/
theorem length_of_escape {care : Care} {cs rest : List Char} {c : Char}
    (h : escape care cs = .ok (c, rest)) : rest.length < cs.length := by
  cases cs with
  | nil => simp [escape] at h
  | cons a as =>
    simp only [escape] at h
    split at h
    · have := length_of_codeEscape h
      simp only [List.length_cons]; omega
    · split at h
      · simp only [Except.ok.injEq, Prod.mk.injEq] at h
        simp only [List.length_cons, ← h.2]; omega
      · simp at h

/-- The characters of a string up to its closing quote. -/
def stringBody (care : Care) (cs : List Char) : Except Fault (List Char × List Char) :=
  match cs with
  | [] => .error .incomplete
  | c :: rest =>
    if c = '"' then .ok ([], rest)
    else if c = '\\' then
      match _h : escape care rest with
      | .error e => .error e
      | .ok (e, rest) =>
        match stringBody care rest with
        | .error e => .error e
        | .ok (s, rest) => .ok (e :: s, rest)
    else if c.toNat < 0x20 then .error .malformed
    else
      match stringBody care rest with
      | .error e => .error e
      | .ok (s, rest) => .ok (c :: s, rest)
termination_by cs.length
decreasing_by
  · have := length_of_escape _h
    simp only [List.length_cons]; omega
  · simp only [List.length_cons]; omega

/-- A string whose opening quote has been read. -/
def stringRest (care : Care) (cs : List Char) : Except Fault (String × List Char) := do
  let (s, rest) ← stringBody care cs
  return (String.ofList s, rest)

/-! ## Numbers -/

/-- The fault of a number that breaks off where digits are needed. -/
def digitFault (care : Care) : List Char → Fault
  | [] => if care = .exact then .incomplete else .malformed
  | _ :: _ => .malformed

/-- At least one digit. -/
def someDigits (care : Care) (cs : List Char) : Except Fault (List Char × List Char) :=
  match cs.takeWhile Char.isDigit with
  | [] => .error (digitFault care cs)
  | ds => .ok (ds, cs.dropWhile Char.isDigit)

/-- The digits before the point; a zero stands alone. -/
def wholeDigits (care : Care) (cs : List Char) : Except Fault (List Char × List Char) := do
  let (ds, rest) ← someDigits care cs
  match ds with
  | '0' :: _ :: _ => throw .malformed
  | _ => return (ds, rest)

/-- The digits behind a point, if there is one. -/
def fractionDigits (care : Care) : List Char → Except Fault (List Char × List Char)
  | '.' :: rest => someDigits care rest
  | cs => .ok ([], cs)

/-- The exponent, if there is one. -/
def exponentPart (care : Care) : List Char → Except Fault (Int × List Char)
  | c :: rest =>
    if c = 'e' ∨ c = 'E' then do
      let (negative, rest) := match rest with
        | '-' :: rest => (true, rest)
        | '+' :: rest => (false, rest)
        | rest => (false, rest)
      let (ds, rest) ← someDigits care rest
      let n : Int := Nat.ofDigitChars 10 ds 0
      return (if negative then -n else n, rest)
    else .ok (0, c :: rest)
  | [] => .ok (0, [])

/-- A number without its sign. -/
def unsigned (care : Care) (cs : List Char) : Except Fault (Digits × List Char) := do
  let (whole, rest) ← wholeDigits care cs
  let (fraction, rest) ← fractionDigits care rest
  let (exponent, rest) ← exponentPart care rest
  let n : Digits := ⟨whole, fraction, exponent⟩
  if care = .exact && n.isHuge then throw .malformed
  return (n, rest)

/-- A number; its value is the characters that it took. -/
def numeral (care : Care) (cs : List Char) : Except Fault (Json × List Char) := do
  let (_, rest) ← unsigned care (match cs with
    | '-' :: cs => cs
    | cs => cs)
  return (.number (String.ofList (cs.take (cs.length - rest.length))), rest)

/-! ## Sequences -/

/-- The entries of an array or object from the first one on, folded into a state. -/
def entriesFrom {σ : Type} (close : Char) (entry : σ → List Char → Except Fault (σ × List Char)) :
    Nat → σ → List Char → Except Fault (σ × List Char)
  | 0, _, _ => .error .malformed
  | fuel + 1, state, cs => do
    let (state, rest) ← entry state cs
    match skipBlanks rest with
    | [] => .error .incomplete
    | c :: rest =>
      if c = close then .ok (state, rest)
      else if c = ',' then entriesFrom close entry fuel state (skipBlanks rest)
      else .error .malformed

/-- The entries behind an opening bracket, folded into a state. -/
def entries {σ : Type} (close : Char) (entry : σ → List Char → Except Fault (σ × List Char))
    (start : σ) (cs : List Char) : Except Fault (σ × List Char) :=
  match skipBlanks cs with
  | [] => .error .incomplete
  | c :: rest =>
    if c = close then .ok (start, rest)
    else entriesFrom close entry (c :: rest).length start (c :: rest)

/-- The key of a member. -/
def key (care : Care) (cs : List Char) : Except Fault (String × List Char) :=
  match skipBlanks cs with
  | [] => .error .incomplete
  | '"' :: rest => stringRest care rest
  | _ => .error .malformed

/-- The text behind the colon of a member. -/
def afterColon (cs : List Char) : Except Fault (List Char) :=
  match skipBlanks cs with
  | [] => .error .incomplete
  | ':' :: rest => .ok rest
  | _ => .error .malformed

/-! ## Values -/

/-- A value that is neither array nor object. -/
def scalar (care : Care) : List Char → Except Fault (Json × List Char)
  | [] => .error .incomplete
  | c :: rest =>
    if c = 'n' then word .null ['u', 'l', 'l'] rest
    else if c = 't' then word (.bool true) ['r', 'u', 'e'] rest
    else if c = 'f' then word (.bool false) ['a', 'l', 's', 'e'] rest
    else if c = '"' then do
      let (s, rest) ← stringRest care rest
      return (.string s, rest)
    else if c = '-' ∨ c.isDigit then numeral care (c :: rest)
    else .error .malformed

/-- A value that nests at most `depth` arrays and objects. -/
def value (care : Care) : Nat → List Char → Except Fault (Json × List Char)
  | depth, cs =>
    match skipBlanks cs with
    | '[' :: rest =>
      match depth with
      | 0 => .error .malformed
      | depth + 1 => do
        let (items, rest) ← entries ']' (fun items cs => do
          let (item, rest) ← value care depth cs
          return (item :: items, rest)) [] rest
        return (.array items.reverse, rest)
    | '\x7b' :: rest =>
      match depth with
      | 0 => .error .malformed
      | depth + 1 => do
        let (members, rest) ← entries '\x7d' (fun members cs => do
          let (k, rest) ← key care cs
          let (v, rest) ← value care depth (← afterColon rest)
          return ((k, v) :: members, rest)) [] rest
        return (.object members.reverse, rest)
    | cs => scalar care cs

/-- The most arrays and objects that a kept value may nest. -/
def maxDepth : Nat := 127

/-- Passes over a value, however deeply it nests. -/
def skip (cs : List Char) : Except Fault (List Char) := do
  let (_, rest) ← value .skim cs.length cs
  return rest

/-- Nothing but blanks may be left. -/
def finish (cs : List Char) : Except Fault Unit :=
  if (skipBlanks cs).isEmpty then .ok () else .error .malformed

end ReleaseMatrix.Json
