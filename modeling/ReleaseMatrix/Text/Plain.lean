/-
  Plain text — what is left of a text without the sequences that a terminal takes for commands.

  A command begins with ESC.  Behind it comes `[` and parameters up to a final letter, or a string
  up to ESC again (some strings also end with BEL), or a single character, perhaps after blanks and
  punctuation.  Tabs and line breaks inside a command are kept unless they are part of a string; of
  the other control characters none is.
-/
namespace ReleaseMatrix.Text

/-- Where in a command a text stands. -/
inductive Command where
  | outside
  /-- Behind ESC. -/
  | escape
  /-- Behind ESC and punctuation. -/
  | punctuated
  /-- Among parameters. -/
  | parameters
  /-- In a string, which may end with BEL or not. -/
  | string (bell : Bool)
deriving DecidableEq, Repr

namespace Command

/-- A control character that moves the text on. -/
def isSpacing (c : Char) : Bool := c == '\t' || c == '\n' || c == '\x0c' || c == '\r'

/-- A character between two others in the order of code points. -/
def within (low high : Char) (c : Char) : Bool := low ≤ c && c ≤ high

/-- What follows ESC. -/
def afterEscape (c : Char) : Command :=
  if c == '[' then parameters
  else if c == ']' then string true
  else if c == 'P' || c == 'X' || c == '^' || c == '_' then string false
  else if within ' ' '/' c then punctuated
  else if within '0' '~' c then outside
  else escape

/-- Where the text stands behind a character. -/
def next (place : Command) (c : Char) : Command :=
  if c == '\x1b' then escape
  else if c == '\x18' || c == '\x1a' then outside
  else
    match place with
    | outside => outside
    | escape => afterEscape c
    | punctuated => if within '0' '~' c then outside else punctuated
    | parameters => if within '@' '~' c then outside else parameters
    | string bell => if bell && c == '\x07' then outside else string bell

/-- Whether a character is kept. -/
def keeps (place : Command) (c : Char) : Bool :=
  match place with
  | outside => isSpacing c || (' ' ≤ c && c != '\x7f')
  | escape | punctuated | parameters => isSpacing c
  | string _ => false

end Command

/-- The characters of a text that are kept, from some point on. -/
def plainFrom (place : Command) : List Char → List Char
  | [] => []
  | c :: rest =>
    let kept := plainFrom (place.next c) rest
    if place.keeps c then c :: kept else kept

/-- The plain text of a text. -/
def plainText (text : String) : String := String.ofList (plainFrom .outside text.toList)

end ReleaseMatrix.Text
