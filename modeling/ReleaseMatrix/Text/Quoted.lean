/-
  Quoted texts — between double quotes, on one line, with escapes for what is not shown.

  Quotation marks and the backslash take a backslash; tab, line breaks and NUL have letters; all
  else that is not shown is written by its code point.
-/
import ReleaseMatrix.Text.Shown

namespace ReleaseMatrix.Text

/-- A code point between braces, in hexadecimal. -/
def codePoint (c : Char) : List Char :=
  ['\\', 'u', '\x7b'] ++ Nat.toDigits 16 c.toNat ++ ['\x7d']

/-- A character as it stands in a quoted text, given the quotation marks that are escaped. -/
def quotedChar (marks : List Char) (c : Char) : List Char :=
  if c = '\\' ∨ c ∈ marks then ['\\', c]
  else if c = '\x00' then ['\\', '0']
  else if c = '\t' then ['\\', 't']
  else if c = '\n' then ['\\', 'n']
  else if c = '\r' then ['\\', 'r']
  else if isShown c then [c]
  else codePoint c

/-- A text between double quotes. -/
def quotedWith (marks : List Char) (text : String) : String :=
  "\"" ++ String.ofList (text.toList.flatMap (quotedChar marks)) ++ "\""

/-- A quoted text. -/
def quoted (text : String) : String := quotedWith ['"'] text

/-- A quoted path, in which the single quotation mark is escaped too. -/
def quotedPath (path : String) : String := quotedWith ['"', '\''] path

end ReleaseMatrix.Text
