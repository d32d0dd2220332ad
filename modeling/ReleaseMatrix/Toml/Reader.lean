/-
  Reading TOML documents.

  A document is a sequence of lines: blank ones, comments, headers, and entries `key = value`.  It
  is read or refused as a whole, so readers answer with an option.  Arrays and inline tables nest
  below a fixed depth, and a key has fewer parts than that.

  1. **Values** — `Toml.value?`.
  2. **Lines** — `Toml.line?` takes one and changes the document built so far.
  3. **Documents** — `Toml.ofText?`.
-/
import ReleaseMatrix.Toml.Quoted
import ReleaseMatrix.Toml.Scalar

namespace ReleaseMatrix.Toml

open Quoted (isGap isPlain dropBreak?)

/-- Nesting, and the parts of a key, stay below this. -/
def limit : Nat := 80

/-- The text from its first character that is no blank. -/
def skipGap (cs : List Char) : List Char := cs.dropWhile isGap

/-! ## Keys -/

/-- A character of a key without quotes. -/
def isBare (c : Char) : Bool := c.isAlphanum || c == '_' || c == '-'

/-- One part of a key. -/
def keyPart? (cs : List Char) : Option (String × List Char) :=
  match cs with
  | '"' :: _ | '\'' :: _ => Quoted.line? cs
  | cs =>
    match cs.takeWhile isBare with
    | [] => none
    | part => some (String.ofList part, cs.dropWhile isBare)

/-- The parts of a key, with dots between them and blanks around them. -/
def keyParts? : Nat → List Char → Option (Key × List Char)
  | 0, _ => none
  | steps + 1, cs => do
    let (part, rest) ← keyPart? (skipGap cs)
    match skipGap rest with
    | '.' :: rest => do
      let (parts, rest) ← keyParts? steps rest
      return (part :: parts, rest)
    | rest => return ([part], rest)

/-- A key of fewer parts than the limit. -/
def key? (cs : List Char) : Option (Key × List Char) := keyParts? (limit - 1) cs

/-! ## Values -/

/-- Drops a comment and the line break behind it, which may be missing at the end of the text. -/
def dropComment? (cs : List Char) : Option (List Char) :=
  match cs.dropWhile isPlain with
  | [] => some []
  | rest => dropBreak? rest

/-- The text behind blanks, line breaks and comments, as they may stand in an array. -/
def skipLines : Nat → List Char → List Char
  | 0, cs => cs
  | steps + 1, cs =>
    match skipGap cs with
    | '#' :: rest =>
      match dropBreak? (rest.dropWhile isPlain) with
      | some rest => skipLines steps rest
      | none => '#' :: rest
    | cs =>
      match dropBreak? cs with
      | some rest => skipLines steps rest
      | none => cs

/-- The text behind all the blanks, breaks and comments that it starts with. -/
def skipLayout (cs : List Char) : List Char := skipLines cs.length cs

/-- The items of an array up to its closing bracket. -/
def items? (item : List Char → Option (Toml × List Char)) :
    Nat → List Char → Option (List Toml × List Char)
  | 0, _ => none
  | steps + 1, cs =>
    match skipLayout cs with
    | ']' :: rest => some ([], rest)
    | cs => do
      let (v, rest) ← item cs
      match skipLayout rest with
      | ']' :: rest => return ([v], rest)
      | ',' :: rest => do
        let (vs, rest) ← items? item steps rest
        return (v :: vs, rest)
      | _ => none

/-- The entries of an inline table up to its closing brace. -/
def inlineEntries? (item : List Char → Option (Toml × List Char)) :
    Nat → Members → List Char → Option (Members × List Char)
  | 0, _, _ => none
  | steps + 1, ms, cs => do
    let (key, rest) ← key? cs
    let '=' :: rest := rest | none
    let (v, rest) ← item (skipGap rest)
    let ms ← assign? key v .inline ms
    match skipGap rest with
    | '\x7d' :: rest => return (ms, rest)
    | ',' :: rest => inlineEntries? item steps ms rest
    | _ => none

/-- A value that nests at most `depth` arrays and inline tables. -/
def value? : Nat → List Char → Option (Toml × List Char)
  | depth, cs =>
    match cs with
    | '"' :: _ | '\'' :: _ => (Quoted.read? cs).map fun (s, rest) => (.string s, rest)
    | '[' :: rest =>
      match depth with
      | 0 => none
      | depth + 1 => do
        let (vs, rest) ← items? (value? depth) (rest.length + 1) rest
        return (.array vs, rest)
    | '\x7b' :: rest =>
      match depth with
      | 0 => none
      | depth + 1 =>
        match skipGap rest with
        | '\x7d' :: rest => some (.table .inline [], rest)
        | rest => do
          let (ms, rest) ← inlineEntries? (value? depth) (rest.length + 1) [] rest
          return (.table .inline ms, rest)
    | cs => Scalar.read? cs

/-! ## Lines -/

/-- A document that is being read: its entries, and the header that further ones go under. -/
structure Draft where
  members : Members
  header : Key

/-- Ends a line: blanks, perhaps a comment, and a line break or the end of the text. -/
def endLine? (cs : List Char) : Option (List Char) :=
  match skipGap cs with
  | [] => some []
  | '#' :: rest => dropComment? rest
  | cs => dropBreak? cs

/-- A key between the brackets of a header. -/
def headerKey? (cs : List Char) : Option (Key × List Char) := do
  let (key, rest) ← key? cs
  let ']' :: rest := rest | none
  return (key, rest)

/-- Reads a line of a document. -/
def line? (d : Draft) (cs : List Char) : Option (Draft × List Char) :=
  match cs with
  | '#' :: rest => (dropComment? rest).map (d, ·)
  | '\n' :: _ | '\r' :: _ => (dropBreak? cs).map (d, ·)
  | '[' :: '[' :: rest => do
    let (key, rest) ← headerKey? rest
    let ']' :: rest := rest | none
    return (⟨← openRow? key d.members, key⟩, ← endLine? rest)
  | '[' :: rest => do
    let (key, rest) ← headerKey? rest
    let rest ← endLine? rest
    return (⟨← openTable? key d.members, key⟩, rest)
  | cs => do
    let (key, rest) ← key? cs
    let '=' :: rest := rest | none
    let (v, rest) ← value? (limit - 1) (skipGap rest)
    let rest ← endLine? rest
    return (⟨← within false (fun _ => assign? key v .header) d.header .header d.members, d.header⟩,
      rest)

/-- Reads the lines of a document. -/
def lines? : Nat → Draft → List Char → Option Draft
  | steps, d, cs =>
    match skipGap cs with
    | [] => some d
    | cs =>
      match steps with
      | 0 => none
      | steps + 1 => do
        let (d, rest) ← line? d cs
        lines? steps d rest

/-! ## Documents -/

/-- **Reading a document**: the entries of its outermost table.  A byte order mark may precede. -/
def ofText? (text : String) : Option Members :=
  let cs := match text.toList with
    | '\uFEFF' :: cs => cs
    | cs => cs
  (lines? cs.length ⟨[], []⟩ cs).map Draft.members

end ReleaseMatrix.Toml
