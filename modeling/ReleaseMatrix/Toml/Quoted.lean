/-
  Quoted text in TOML: the four kinds of strings.

      "basic"     escapes, one line            """basic"""     escapes, several lines
      'literal'   no escapes, one line         '''literal'''   no escapes, several lines

  In strings of several lines a line break right behind the opening quotes is dropped, one or two
  quotes may stand inside and in front of the closing ones, and in a basic one a backslash at the
  end of a line joins it to the next text.  Control characters other than the tab are refused.
-/
import ReleaseMatrix.Json.Reader

namespace ReleaseMatrix.Toml.Quoted

/-! ## Characters -/

/-- A character that may stand in a line. -/
def isPlain (c : Char) : Bool := c == '\t' || (0x20 ≤ c.toNat && c.toNat != 0x7F)

/-- Drops a line break. -/
def dropBreak? : List Char → Option (List Char)
  | '\n' :: rest => some rest
  | '\r' :: '\n' :: rest => some rest
  | _ => none

/-- A blank within a line. -/
def isGap (c : Char) : Bool := c == ' ' || c == '\t'

/-- The character of a code point that is given in hexadecimal. -/
def ofHex? (ds : List Char) : Option Char := do
  let n ← ds.foldlM (fun n d => (Json.hexValue? d).map (n * 16 + ·)) 0
  if n < 0xD800 ∨ (0xDFFF < n ∧ n < 0x110000) then some (Char.ofNat n) else none

/-- The character that stands behind a backslash, and what follows it. -/
def escape? : List Char → Option (Char × List Char)
  | 'b' :: rest => some ('\x08', rest)
  | 't' :: rest => some ('\t', rest)
  | 'n' :: rest => some ('\n', rest)
  | 'f' :: rest => some ('\x0c', rest)
  | 'r' :: rest => some ('\r', rest)
  | '"' :: rest => some ('"', rest)
  | '\\' :: rest => some ('\\', rest)
  | 'u' :: a :: b :: c :: d :: rest => (ofHex? [a, b, c, d]).map (·, rest)
  | 'U' :: a :: b :: c :: d :: e :: f :: g :: h :: rest =>
    (ofHex? [a, b, c, d, e, f, g, h]).map (·, rest)
  | _ => none

/-! ## Bodies

  Every step takes at least one character, so the length of the text is steps enough. -/

/-- The rest of a basic string of one line. -/
def basicLine : Nat → List Char → Option (List Char × List Char)
  | 0, _ | _, [] => none
  | steps + 1, c :: rest =>
    if c = '"' then some ([], rest)
    else if c = '\\' then do
      let (e, rest) ← escape? rest
      let (s, rest) ← basicLine steps rest
      return (e :: s, rest)
    else if isPlain c then do
      let (s, rest) ← basicLine steps rest
      return (c :: s, rest)
    else none

/-- The rest of a literal string of one line. -/
def literalLine : List Char → Option (List Char × List Char)
  | [] => none
  | c :: rest =>
    if c = '\'' then some ([], rest)
    else if isPlain c then (literalLine rest).map fun (s, rest) => (c :: s, rest)
    else none

/-- The quotes at the end of a string of several lines: three close it, up to two more before them
belong to the text. -/
def closing? (quote : Char) (cs : List Char) : Option (List Char × List Char) :=
  let count := (cs.takeWhile (· == quote)).length
  if 3 ≤ count then
    let extra := min (count - 3) 2
    some (List.replicate extra quote, cs.drop (extra + 3))
  else none

/-- The text behind a backslash that ends a line: blanks, a break, and blanks and breaks. -/
def dropJoint? (cs : List Char) : Option (List Char) := do
  let rest ← dropBreak? (cs.dropWhile isGap)
  return go rest.length rest
where
  go : Nat → List Char → List Char
    | 0, cs => cs
    | steps + 1, cs =>
      match dropBreak? (cs.dropWhile isGap) with
      | some rest => go steps rest
      | none => cs.dropWhile isGap

/-- The rest of a string of several lines, with escapes or without. -/
def block (quote : Char) (escapes : Bool) : Nat → List Char → Option (List Char × List Char)
  | 0, _ | _, [] => none
  | steps + 1, c :: rest =>
    match closing? quote (c :: rest) with
    | some found => some found
    | none =>
      match dropBreak? (c :: rest) with
      | some rest => do
        let (s, rest) ← block quote escapes steps rest
        return ('\n' :: s, rest)
      | none =>
        if escapes && c == '\\' then
          match dropJoint? rest with
          | some rest => block quote escapes steps rest
          | none => do
            let (e, rest) ← escape? rest
            let (s, rest) ← block quote escapes steps rest
            return (e :: s, rest)
        else if isPlain c then do
          let (s, rest) ← block quote escapes steps rest
          return (c :: s, rest)
        else none

/-- A string of several lines whose opening quotes have been read. -/
def blockFrom (quote : Char) (escapes : Bool) (cs : List Char) : Option (List Char × List Char) :=
  let body := (dropBreak? cs).getD cs
  block quote escapes (body.length + 1) body

/-! ## Reading -/

/-- A string of one line; keys are quoted this way. -/
def line? : List Char → Option (String × List Char)
  | '"' :: rest => (basicLine (rest.length + 1) rest).map fun (s, rest) => (String.ofList s, rest)
  | '\'' :: rest => (literalLine rest).map fun (s, rest) => (String.ofList s, rest)
  | _ => none

/-- A string of any kind. -/
def read? : List Char → Option (String × List Char)
  | '"' :: '"' :: '"' :: rest =>
    (blockFrom '"' true rest).map fun (s, rest) => (String.ofList s, rest)
  | '\'' :: '\'' :: '\'' :: rest =>
    (blockFrom '\'' false rest).map fun (s, rest) => (String.ofList s, rest)
  | cs => line? cs

end ReleaseMatrix.Toml.Quoted
