/-
  JSON values and their compact text.

  An object keeps its members in the order in which they were written, repeated keys included, and a
  number keeps its spelling: the readers of catalogs and manifests care about both.

  1. **Values** — `Json`.
  2. **Text** — `Json.text` without any blanks; `Json.quote` escapes `"`, `\` and the characters
     below U+0020 and keeps all others as they are.
-/
namespace ReleaseMatrix

/-- A JSON value. -/
inductive Json where
  | null
  | bool (b : Bool)
  | number (spelling : String)
  | string (s : String)
  | array (items : List Json)
  | object (members : List (String × Json))
deriving Inhabited

namespace Json

/-! ## Members -/

/-- The value of the last member under a key. -/
def lastMember? (key : String) (members : List (String × Json)) : Option Json :=
  members.reverse.lookup key

/-- The string that a value is, if it is one. -/
def string? : Json → Option String
  | string s => some s
  | _ => none

/-! ## Text -/

/-- The hexadecimal digit of a number below 16, in lower case. -/
def hexDigit (n : Nat) : Char :=
  if n < 10 then Char.ofNat (48 + n) else Char.ofNat (87 + n)

/-- A character as it stands between quotes. -/
def escaped (c : Char) : List Char :=
  if c = '"' then ['\\', '"']
  else if c = '\\' then ['\\', '\\']
  else if c = '\n' then ['\\', 'n']
  else if c = '\r' then ['\\', 'r']
  else if c = '\t' then ['\\', 't']
  else if c = '\x08' then ['\\', 'b']
  else if c = '\x0c' then ['\\', 'f']
  else if c.toNat < 0x20 then
    ['\\', 'u', '0', '0', hexDigit (c.toNat / 16), hexDigit (c.toNat % 16)]
  else [c]

/-- A string between quotes. -/
def quote (s : String) : String :=
  String.ofList ('"' :: s.toList.flatMap escaped ++ ['"'])

mutual

/-- The compact text of a value. -/
def text : Json → String
  | null => "null"
  | bool b => if b then "true" else "false"
  | number spelling => spelling
  | string s => quote s
  | array items => "[" ++ itemTexts items ++ "]"
  | object members => "\x7b" ++ memberTexts members ++ "\x7d"

/-- The items, with a comma between them. -/
def itemTexts : List Json → String
  | [] => ""
  | [v] => v.text
  | v :: w :: rest => v.text ++ "," ++ itemTexts (w :: rest)

/-- The members, with a comma between them. -/
def memberTexts : List (String × Json) → String
  | [] => ""
  | [(k, v)] => quote k ++ ":" ++ v.text
  | (k, v) :: m :: rest => quote k ++ ":" ++ v.text ++ "," ++ memberTexts (m :: rest)

end

end Json
end ReleaseMatrix
