/-
  Terminal styles — text between the sequence that turns a style on and the one that ends it.

  A text that ends a style itself would end the one around it too, so that is turned on again there.
-/
namespace ReleaseMatrix.Text

/-- The style sequence with these codes. -/
def sequence (codes : String) : String := "\x1b[" ++ codes ++ "m"

/-- The sequence that ends all styles. -/
def plain : List Char := ['\x1b', '[', '0', 'm']

/-- Puts a text behind every end of a style. -/
def restyle (style : List Char) : List Char → List Char
  | '\x1b' :: '[' :: '0' :: 'm' :: rest => plain ++ style ++ restyle style rest
  | c :: rest => c :: restyle style rest
  | [] => []

/-- A text in the style with these codes. -/
def styled (codes : String) (text : String) : String :=
  sequence codes ++ String.ofList (restyle (sequence codes).toList text.toList ++ plain)

/-- A text in a style, or as it is where styles are off. -/
def styledIf (on : Bool) (codes : String) (text : String) : String :=
  if on then styled codes text else text

/-- Blanks behind a text up to a width. -/
def padRight (width : Nat) (text : String) : String :=
  text ++ String.ofList (List.replicate (width - text.length) ' ')

end ReleaseMatrix.Text
